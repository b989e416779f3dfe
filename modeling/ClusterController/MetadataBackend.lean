import ClusterController.Metadata
import ClusterController.PortAddresses
import ClusterController.Lib.Transcript

/-!
# The backend of the metadata service

What the backend answers in any surroundings, and when its loop goes on. Requests are told apart
by their IP address alone, over the ports of the whole northbound database.
-/

namespace ClusterController.Metadata

open ApiServer (StringMap Key KubeError Resource)
open Interaction (Program)
open Interaction.Program (Outcome eval_bind eval_attempt)
open Ovsdb (Database Row Consistent Operation FitColumns Datum Ref)

/-! ## Surroundings -/

/-- What the systems around the backend answer while it handles a request. -/
structure Surroundings where
  nodes : Except KubeError (List Node)
  connects : String → Bool
  northbound : Database
  consistent : Consistent ClusterController.northbound northbound
  vms : Except KubeError (List VirtualMachine)
  configMap : Key → Except KubeError ConfigMap

/-- The answer to a request. The backend does not make the others. -/
def Surroundings.answer (s : Surroundings) : (r : Request) → r.Answer
  | .kube (.list .node none) => s.nodes
  | .kube (.list .virtualMachine none) => s.vms
  | .kube (.get .configMap k) => s.configMap k
  | .kube _ => .error .notFound
  | .ovnConnect address _ => if s.connects address then some () else none
  | .transact operations =>
    (s.northbound.transact ClusterController.northbound [] operations).map Prod.fst
  | .lockSchedule => ()
  | .unlockSchedule => ()
  | .scheduleSpan _ => ()
  | .newV4 => ""
  | .choose _ => 0
  | .libvirt _ _ => none
  | .bridge _ _ => none
  | .ceph _ => .error 0

/-- The ports of the database with the dynamic IP. -/
def portsWithIp (db : Database) (ip : String) : List LogicalSwitchPort :=
  (rowsOf LogicalSwitchPort db).filter fun port => port.dynamicIp.getD "" = ip

/-- One of the nodes that run the central OVN databases can be reached. -/
def Surroundings.Reachable (s : Surroundings) : Prop :=
  ∃ nodes, s.nodes = .ok nodes ∧ ∃ node ∈ nodes,
    (ovnCentralStatus node = .managed ∨ ovnCentralStatus node = .unmanaged) ∧
    ∃ address, (ovnCentralAnnotatedIp node).or (internalIp node) = some address ∧
      s.connects address = true

section Evaluation

variable {s : Surroundings}

theorem transact_select {db : Database} (hc : Consistent ClusterController.northbound db) (T : String)
    (cols : List String) : (db.transact ClusterController.northbound [] [.select T cols]).map Prod.fst =
      some [.obj [("rows", .arr ((db T).map fun r => r.encode cols))]] := by
  have hunused : db.unused ClusterController.northbound [] = true :=
    List.all_eq_true.mpr fun _ _ => rfl
  unfold Database.transact
  rw [if_pos ⟨List.nodup_nil, List.nodup_nil, hunused⟩]
  show ((if (db.sweep ClusterController.northbound).integral _ && _ then _ else none) : Option _).map _ = _
  rw [hc.swept, hc.integral, hc.distinct]
  rfl

/-- What the API server answers is the result, or the error. -/
def ofKube {α : Type} : Except KubeError α → Outcome Error α
  | .ok a => .ok a
  | .error e => .err (.kube e)

theorem eval_kubeCall (r : KubeRequest) :
    (kubeCall r).eval s.answer = ofKube (s.answer (.kube r) : Except KubeError r.Answer) := by
  rw [kubeCall, eval_bind]
  show (Outcome.ok (s.answer (.kube r))).andThen _ = _
  show Program.eval _ _ = _
  cases (s.answer (.kube r) : Except KubeError r.Answer) <;> rfl

theorem eval_transact_select (T : String) (cols : List String) :
    (transact [.select T cols]).eval s.answer =
      .ok [.obj [("rows", .arr ((s.northbound T).map fun r => r.encode cols))]] := by
  have hanswer : s.answer (.transact [.select T cols]) =
      some [.obj [("rows", .arr ((s.northbound T).map fun r => r.encode cols))]] :=
    transact_select s.consistent T cols
  rw [transact, eval_bind]
  show (Outcome.ok (s.answer (.transact [.select T cols]))).andThen _ = _
  rw [hanswer]
  rfl

theorem eval_getByIp (ip : String) :
    (LogicalSwitchPort.getByIp ip).eval s.answer = .ok (portsWithIp s.northbound ip) := by
  have hlist : (listObjects typeLogicalSwitchPort).eval s.answer =
      .ok ((s.northbound typeLogicalSwitchPort).map fun r =>
        r.encode (listColumns typeLogicalSwitchPort)) := by
    rw [listObjects, eval_bind, eval_transact_select]
    rfl
  have hdecode := collect_decode LogicalSwitchPort s.consistent
  rw [LogicalSwitchPort.getByIp, ovnList, eval_bind, eval_bind]
  change ((Program.eval _ (listObjects typeLogicalSwitchPort)).andThen _).andThen _ = _
  rw [hlist]
  change (Program.eval _ (Program.collect ((s.northbound (OvnCommon.ovnType LogicalSwitchPort)).map
    fun r => r.encode (listColumns (OvnCommon.ovnType LogicalSwitchPort))) _)).andThen _ = _
  rw [hdecode]
  rfl

theorem eval_connectFirst (nodes : List Node) (error : Option Error) :
    ((connectFirst nodes error).eval s.answer = .ok () ∧ ∃ node ∈ nodes, ∃ address,
      (ovnCentralAnnotatedIp node).or (internalIp node) = some address ∧ s.connects address = true) ∨
    (∃ e, (connectFirst nodes error).eval s.answer = .err e) ∧ ∀ node ∈ nodes, ∀ address,
      (ovnCentralAnnotatedIp node).or (internalIp node) = some address → s.connects address = false := by
  induction nodes generalizing error with
  | nil => cases error <;> exact .inr ⟨⟨_, rfl⟩, by simp⟩
  | cons node nodes ih =>
    unfold connectFirst
    cases ha : (ovnCentralAnnotatedIp node).or (internalIp node) with
    | none =>
      rcases ih error with ⟨hok, n, hn, h⟩ | ⟨herr, h⟩
      · exact .inl ⟨hok, n, List.mem_cons_of_mem _ hn, h⟩
      · exact .inr ⟨herr, List.forall_mem_cons.mpr ⟨by simp [ha], h⟩⟩
    | some address =>
      have hask : ∀ f : Option Unit → Prog Unit, Program.eval s.answer
          ((ask (.ovnConnect address 6641) : Prog (Option Unit)) >>= f) =
            (f (if s.connects address then some () else none)).eval s.answer := fun _ => rfl
      dsimp only
      rw [hask]
      cases hc : s.connects address with
      | true => exact .inl ⟨rfl, node, List.mem_cons_self, address, ha, hc⟩
      | false =>
        rcases ih (some .io) with ⟨hok, n, hn, h⟩ | ⟨herr, h⟩
        · exact .inl ⟨hok, n, List.mem_cons_of_mem _ hn, h⟩
        · refine .inr ⟨herr, List.forall_mem_cons.mpr ⟨fun address' ha' => ?_, h⟩⟩
          cases ha.symm.trans ha'
          exact hc

/-- The backend gets a connection, or has an error. -/
theorem eval_ovnTryFromAnnotations :
    (ovnTryFromAnnotations.eval s.answer = .ok () ∧ s.Reachable) ∨
      (∃ e, ovnTryFromAnnotations.eval s.answer = .err e) ∧ ¬s.Reachable := by
  have heval : ovnTryFromAnnotations.eval s.answer = (ofKube s.nodes).andThen fun nodes =>
      (connectFirst (nodes.filter fun node =>
        ovnCentralStatus node = .managed || ovnCentralStatus node = .unmanaged) none).eval s.answer := by
    rw [ovnTryFromAnnotations, eval_bind]
    exact congrArg (Outcome.andThen · _) (eval_kubeCall (.list .node none))
  rw [heval]
  cases hn : s.nodes with
  | error e =>
    refine .inr ⟨⟨_, rfl⟩, ?_⟩
    rintro ⟨nodes, hnodes, -⟩
    cases hn.symm.trans hnodes
  | ok nodes =>
    rcases eval_connectFirst (s := s) (nodes.filter fun node =>
      ovnCentralStatus node = .managed || ovnCentralStatus node = .unmanaged) none with
      ⟨hok, node, hnode, h⟩ | ⟨herr, h⟩
    · obtain ⟨hmem, hcentral⟩ := List.mem_filter.mp hnode
      exact .inl ⟨hok, nodes, hn, node, hmem, by simpa using hcentral, h⟩
    · refine .inr ⟨herr, ?_⟩
      rintro ⟨nodes', hnodes, node, hmem, hcentral, address, haddress, hconnects⟩
      cases hn.symm.trans hnodes
      have hfalse := h node (List.mem_filter.mpr ⟨hmem, by simpa using hcentral⟩) address haddress
      rw [hconnects] at hfalse
      cases hfalse

/-- The instance id is there once it is needed. -/
def Surroundings.Identified (s : Surroundings) (vm : VirtualMachine) : Prop :=
  ∀ userdataName, vm.spec.userdata = some userdataName →
    ∀ configMap, s.configMap ⟨vm.metadata.ns, userdataName⟩ = .ok configMap →
      ∀ userdata, userdataOf userdataName configMap = .ok userdata → vm.spec.uuid.isSome = true

/-- The payload is about the VM. -/
structure Describes (s : Surroundings) (ip : String) (vm : VirtualMachine) (payload : MetadataPayload) :
    Prop where
  ip : payload.ip = ip
  instanceId : vm.spec.uuid = some payload.instanceId
  hostname : payload.hostname = vm.metadata.name
  userData : ∃ userdataName configMap, vm.spec.userdata = some userdataName ∧
    s.configMap ⟨vm.metadata.ns, userdataName⟩ = .ok configMap ∧
    userdataOf userdataName configMap = .ok payload.userData

/-- What is said about a VM: a payload about it, or an error, and a panic if the instance id is
missing. -/
theorem eval_describe (ip : String) (vm : VirtualMachine) :
    ((∃ response, (describe ip vm).eval s.answer = .ok response) ↔ s.Identified vm) ∧
    ∀ payload, (describe ip vm).eval s.answer = .ok (.ok payload) → Describes s ip vm payload := by
  unfold describe Surroundings.Identified
  cases hu : vm.spec.userdata with
  | none => exact ⟨⟨fun _ => by simp, fun _ => ⟨_, rfl⟩⟩, fun payload h => by cases h⟩
  | some userdataName =>
    have hget : (kubeGet .configMap ⟨vm.metadata.ns, userdataName⟩).eval s.answer =
        ofKube (s.configMap ⟨vm.metadata.ns, userdataName⟩) :=
      eval_kubeCall (.get .configMap ⟨vm.metadata.ns, userdataName⟩)
    dsimp only
    rw [eval_bind, eval_attempt, hget]
    cases hc : s.configMap ⟨vm.metadata.ns, userdataName⟩ with
    | error e =>
      refine ⟨⟨fun _ name hname configMap hmap => ?_, fun _ => ⟨_, rfl⟩⟩, fun payload h => by cases h⟩
      cases hname
      cases hc.symm.trans hmap
    | ok configMap =>
      simp only [ofKube, Outcome.andThen]
      cases hd : userdataOf userdataName configMap with
      | error e =>
        refine ⟨⟨fun _ name hname configMap' hmap userdata hdata => ?_, fun _ => ⟨_, rfl⟩⟩,
          fun payload h => by cases h⟩
        cases hname
        cases hc.symm.trans hmap
        cases hd.symm.trans hdata
      | ok userdata =>
        cases hid : vm.spec.uuid with
        | none =>
          refine ⟨⟨?_, fun h => ?_⟩, fun payload h => by cases h⟩
          · rintro ⟨response, hr⟩
            cases hr
          · cases h userdataName rfl configMap hc userdata hd
        | some instanceId =>
          refine ⟨⟨fun _ _ _ _ _ _ _ => rfl, fun _ => ⟨_, rfl⟩⟩, fun payload h => ?_⟩
          cases h
          exact ⟨rfl, hid, rfl, userdataName, configMap, hu, hc, hd⟩

/-- What is said about the ports that have the IP. -/
def Surroundings.aboutPorts (s : Surroundings) (ip : String) :
    List LogicalSwitchPort → Outcome Error MetadataResponse
  | [port] => (ofKube s.vms).andThen fun vms =>
    match matchingVms port vms with
    | [vm] => (describe ip vm).eval s.answer
    | _ => .aborted "assertion failed: `(left == right)`"
  | ports => .ok (.error (.instanceMatchFailed ("Matched " ++ toString ports.length ++ " instances")))

theorem eval_handleRequest (ip : String) : (handleRequest ip).eval s.answer =
    (ovnTryFromAnnotations.eval s.answer).andThen fun _ =>
      s.aboutPorts ip (portsWithIp s.northbound ip) := by
  have hvms : (kubeList .virtualMachine none).eval s.answer = ofKube s.vms :=
    eval_kubeCall (.list .virtualMachine none)
  rw [handleRequest, eval_bind]
  refine congrArg _ (funext fun _ => ?_)
  rw [eval_bind, eval_getByIp]
  simp only [Outcome.andThen]
  match portsWithIp s.northbound ip with
  | [] => rfl
  | _ :: _ :: _ => rfl
  | [port] =>
    dsimp only
    rw [eval_bind, hvms]
    refine congrArg _ (funext fun vms => ?_)
    match matchingVms port vms with
    | [] => rfl
    | [vm] => rfl
    | _ :: _ :: _ => rfl

/-- A response can be given to the request: the databases can be reached, and if one port has
the IP, then the VMs are listed, one of them has a NIC on the port, and it has an instance id if
it comes to that. -/
structure Surroundings.Answerable (s : Surroundings) (ip : String) : Prop where
  reachable : s.Reachable
  matched : ∀ port, portsWithIp s.northbound ip = [port] →
    ∃ vms vm, s.vms = .ok vms ∧ matchingVms port vms = [vm] ∧ s.Identified vm

theorem aboutPorts_isOk (ip : String) (ports : List LogicalSwitchPort) :
    (∃ response, s.aboutPorts ip ports = .ok response) ↔ ∀ port, ports = [port] →
      ∃ vms vm, s.vms = .ok vms ∧ matchingVms port vms = [vm] ∧ s.Identified vm := by
  match ports with
  | [] => exact ⟨fun _ => by simp, fun _ => ⟨_, rfl⟩⟩
  | _ :: _ :: _ => exact ⟨fun _ => by simp, fun _ => ⟨_, rfl⟩⟩
  | [port] =>
    unfold Surroundings.aboutPorts
    constructor
    · rintro ⟨response, hr⟩ _ he
      cases he
      cases hv : s.vms with
      | error e =>
        rw [hv] at hr
        cases hr
      | ok vms =>
        rw [hv] at hr
        simp only [ofKube, Outcome.andThen] at hr
        split at hr
        · next vm hm => exact ⟨vms, vm, rfl, hm, (eval_describe ip vm).1.mp ⟨response, hr⟩⟩
        · cases hr
    · intro h
      obtain ⟨vms, vm, hv, hm, hid⟩ := h port rfl
      obtain ⟨response, hr⟩ := (eval_describe ip vm).1.mpr hid
      refine ⟨response, ?_⟩
      simp only [hv, ofKube, Outcome.andThen, hm]
      exact hr

theorem handleRequest_isOk (ip : String) :
    (∃ response, (handleRequest ip).eval s.answer = .ok response) ↔ s.Answerable ip := by
  rw [eval_handleRequest]
  rcases eval_ovnTryFromAnnotations (s := s) with ⟨hok, hreach⟩ | ⟨⟨e, herr⟩, hreach⟩
  · rw [hok]
    exact (aboutPorts_isOk ip _).trans ⟨fun h => ⟨hreach, h⟩, fun h => h.matched⟩
  · rw [herr]
    constructor
    · rintro ⟨response, hr⟩
      cases hr
    · exact fun h => absurd h.reachable hreach

end Evaluation

/-! ## The loop -/

/-- A request in its surroundings. A client that waits still has its end of the return channel
when the response is sent. -/
structure Turn where
  ip : String
  waiting : Bool
  surroundings : Surroundings

/-- Where the backend is: it listens for the next request, or it has returned with an error, or
panicked. The error of a send to nobody is `none`. -/
inductive LoopState : Type
  | listening
  | returned (e : Option Error)
  | panicked (message : String)

/-- `MetadataBackend::main`: what the clients get, and where the backend is after the requests. -/
def main : List Turn → List (Option MetadataResponse) × LoopState
  | [] => ([], .listening)
  | turn :: turns =>
    match (handleRequest turn.ip).eval turn.surroundings.answer with
    | .err e => ([none], .returned (some e))
    | .aborted message => ([none], .panicked message)
    | .ok response =>
      if turn.waiting then
        let (responses, state) := main turns
        (some response :: responses, state)
      else ([none], .returned none)

/-- The backend has sent a response to each request, and listens for the next one. -/
def StaysUp (turns : List Turn) : Prop :=
  ∃ responses : List MetadataResponse, responses.length = turns.length ∧
    main turns = (responses.map some, .listening)

theorem staysUp_cons {turn : Turn} {turns : List Turn} : StaysUp (turn :: turns) ↔
    (turn.waiting = true ∧ turn.surroundings.Answerable turn.ip) ∧ StaysUp turns := by
  rw [← handleRequest_isOk]
  unfold StaysUp
  rw [main]
  cases heval : (handleRequest turn.ip).eval turn.surroundings.answer with
  | err e => simp
  | aborted m => simp
  | ok response =>
    cases hw : turn.waiting with
    | false => simp
    | true =>
      have hmain : ∀ l : List (Option MetadataResponse), ∀ responses : List MetadataResponse,
          some response :: l = responses.map some ↔
            ∃ rest, responses = response :: rest ∧ l = rest.map some := by
        intro l responses
        cases responses with
        | nil => simp
        | cons first rest =>
          rw [List.map_cons, List.cons.injEq, Option.some.injEq]
          constructor
          · rintro ⟨rfl, h⟩
            exact ⟨rest, rfl, h⟩
          · rintro ⟨rest', h, h'⟩
            cases h
            exact ⟨rfl, h'⟩
      simp only [if_true, Prod.mk.injEq, hmain]
      constructor
      · rintro ⟨_, hlen, ⟨rest, rfl, hrest⟩, hstate⟩
        refine ⟨⟨trivial, response, rfl⟩, rest, by simpa using hlen, ?_⟩
        rw [← hrest, ← hstate]
      · rintro ⟨-, rest, hlen, hrest⟩
        exact ⟨response :: rest, by simpa using hlen, ⟨rest, rfl, by rw [hrest]⟩, by rw [hrest]⟩

/-- The backend handles every request of a sequence exactly if all clients wait and each request
can be answered. -/
theorem backend_stays_up_iff (turns : List Turn) : StaysUp turns ↔
    ∀ turn ∈ turns, turn.waiting = true ∧ turn.surroundings.Answerable turn.ip := by
  induction turns with
  | nil => exact ⟨fun _ => by simp, fun _ => ⟨[], rfl, rfl⟩⟩
  | cons turn turns ih => rw [staysUp_cons, ih, List.forall_mem_cons]

/-! ## Isolation -/

/-- The port is on a switch, a port of which leads to a port of the router. -/
def OnRouter (db : Database) (router : String) (port : LogicalSwitchPort) : Prop :=
  ∃ ls ∈ db typeLogicalSwitch, port.uuid ∈ ls.refs "ports" ∧
    ∃ lsp ∈ db typeLogicalSwitchPort, lsp.uuid ∈ ls.refs "ports" ∧
      ∃ options, lsp.get "options" = some (.map options) ∧
        ∃ lr ∈ db typeLogicalRouter, rowText lr "name" = router ∧
          ∃ lrp ∈ db typeLogicalRouterPort, lrp.uuid ∈ lr.refs "ports" ∧
            options.get "router-port" = some (rowText lrp "name")

/-- Two surroundings that differ in the northbound database alone, and not in the ports with
the IP. -/
structure SameFor (ip : String) (s s' : Surroundings) : Prop where
  nodes : s.nodes = s'.nodes
  connects : s.connects = s'.connects
  vms : s.vms = s'.vms
  configMap : s.configMap = s'.configMap
  ports : portsWithIp s.northbound ip = portsWithIp s'.northbound ip

section Isolation

variable {s s' : Surroundings} {ip : String}

theorem payload_of_port {payload : MetadataPayload}
    (h : (handleRequest ip).eval s.answer = .ok (.ok payload)) :
    ∃ port vms vm, portsWithIp s.northbound ip = [port] ∧ s.vms = .ok vms ∧
      matchingVms port vms = [vm] ∧ Describes s ip vm payload := by
  rw [eval_handleRequest] at h
  rcases eval_ovnTryFromAnnotations (s := s) with ⟨hok, -⟩ | ⟨⟨e, herr⟩, -⟩
  · rw [hok] at h
    simp only [Outcome.andThen] at h
    match hp : portsWithIp s.northbound ip with
    | [] =>
      rw [hp] at h
      cases h
    | _ :: _ :: _ =>
      rw [hp] at h
      cases h
    | [port] =>
      rw [hp] at h
      unfold Surroundings.aboutPorts at h
      cases hv : s.vms with
      | error e =>
        rw [hv] at h
        cases h
      | ok vms =>
        rw [hv] at h
        simp only [ofKube, Outcome.andThen] at h
        split at h
        · next vm hm => exact ⟨port, vms, vm, rfl, rfl, hm, (eval_describe ip vm).2 payload h⟩
        · cases h
  · rw [herr] at h
    cases h

/-- The request does not read the northbound database. -/
def Elsewhere : Request → Prop
  | .transact _ => False
  | _ => True

theorem SameFor.answer_eq (h : SameFor ip s s') {r : Request} (hr : Elsewhere r) :
    s.answer r = s'.answer r := by
  obtain ⟨nodes, connects, northbound, consistent, vms, configMap⟩ := s
  obtain ⟨nodes', connects', northbound', consistent', vms', configMap'⟩ := s'
  obtain ⟨hnodes, hconnects, hvms, hmap, -⟩ := h
  cases hnodes
  cases hconnects
  cases hvms
  cases hmap
  cases r with
  | transact operations => exact hr.elim
  | kube r =>
    cases r with
    | get κ k => cases κ <;> rfl
    | list κ selector => cases κ <;> cases selector <;> rfl
    | _ => rfl
  | _ => rfl

theorem elsewhere_describe (vm : VirtualMachine) :
    (describe ip vm).Within Elsewhere fun _ => True := by
  unfold describe
  cases vm.spec.userdata with
  | none => trivial
  | some userdataName =>
    have hcall : (kubeGet .configMap ⟨vm.metadata.ns, userdataName⟩).Within Elsewhere fun _ => True :=
      ⟨trivial, fun x => by cases x <;> trivial⟩
    refine hcall.attempt.bind fun configMap _ => ?_
    cases configMap with
    | error e => trivial
    | ok configMap =>
      dsimp only
      cases userdataOf userdataName configMap with
      | error e => trivial
      | ok userdata =>
        dsimp only
        cases vm.spec.uuid <;> trivial

theorem elsewhere_connectFirst (nodes : List Node) (error : Option Error) :
    (connectFirst nodes error).Within Elsewhere fun _ => True := by
  induction nodes generalizing error with
  | nil => cases error <;> trivial
  | cons node nodes ih =>
    unfold connectFirst
    cases (ovnCentralAnnotatedIp node).or (internalIp node) with
    | none => exact ih error
    | some address =>
      refine ⟨trivial, fun x => ?_⟩
      cases x with
      | none => exact ih _
      | some _ => trivial

theorem elsewhere_ovnTryFromAnnotations : ovnTryFromAnnotations.Within Elsewhere fun _ => True := by
  have hcall : (kubeList .node none).Within Elsewhere fun _ => True :=
    ⟨trivial, fun x => by cases x <;> trivial⟩
  exact hcall.bind fun nodes _ => elsewhere_connectFirst _ _

/-- Ports with other addresses do not change the answer. -/
theorem eval_handleRequest_congr (h : SameFor ip s s') :
    (handleRequest ip).eval s.answer = (handleRequest ip).eval s'.answer := by
  rw [eval_handleRequest, eval_handleRequest,
    elsewhere_ovnTryFromAnnotations.eval_congr fun _ hr => h.answer_eq hr, h.ports]
  refine congrArg _ (funext fun _ => ?_)
  match portsWithIp s'.northbound ip with
  | [] => rfl
  | _ :: _ :: _ => rfl
  | [port] =>
    unfold Surroundings.aboutPorts
    rw [h.vms]
    dsimp only
    refine congrArg _ (funext fun vms => ?_)
    match matchingVms port vms with
    | [] => rfl
    | _ :: _ :: _ => rfl
    | [vm] => exact (elsewhere_describe vm).eval_congr fun _ hr => h.answer_eq hr

/-- The backend answers by the address alone: the payload is about the only VM on the only port
with the IP, ports with other addresses do not change the answer, and with a second port there is
none. So the VM is on the router that the service was started for if all ports with the IP are. -/
theorem metadata_by_address (s : Surroundings) (ip : String) :
    (∀ payload, (handleRequest ip).eval s.answer = .ok (.ok payload) →
      ∃ port vms vm, portsWithIp s.northbound ip = [port] ∧ s.vms = .ok vms ∧
        matchingVms port vms = [vm] ∧ Describes s ip vm payload ∧
        ∀ router, (∀ p ∈ portsWithIp s.northbound ip, OnRouter s.northbound router p) →
          OnRouter s.northbound router port) ∧
    (∀ s', SameFor ip s s' → (handleRequest ip).eval s.answer = (handleRequest ip).eval s'.answer) ∧
    ((portsWithIp s.northbound ip).length ≠ 1 →
      ∀ payload, (handleRequest ip).eval s.answer ≠ .ok (.ok payload)) := by
  refine ⟨fun payload h => ?_, fun s' h => eval_handleRequest_congr h, fun hlen payload h => ?_⟩
  · obtain ⟨port, vms, vm, hp, hv, hm, hd⟩ := payload_of_port h
    exact ⟨port, vms, vm, hp, hv, hm, hd, fun router hall => hall port (by rw [hp]; simp)⟩
  · obtain ⟨port, vms, vm, hp, -⟩ := payload_of_port h
    rw [hp] at hlen
    exact hlen rfl

end Isolation

/-! ## A port of another network -/

section Examples

/-- A port on a switch has got an address, and there is a router that the switch is not
connected to. -/
def addressedDatabase : Database :=
  lanDatabase.modifyRow typeLogicalSwitchPort "p1" fun r =>
    r.modify "dynamic_addresses" fun _ => .strings ["52:54:00:1:2:34 10.0.0.5"]

def routedOperations : List Operation :=
  [.insert typeLogicalRouter [("name", .strings ["n-edge"])] none]

def routedDatabase : Database :=
  ((addressedDatabase.transact ClusterController.northbound ["lr"] routedOperations).map
    Prod.snd).getD fun _ => []

theorem consistent_routedDatabase : Consistent ClusterController.northbound routedDatabase := by
  have hsome : (addressedDatabase.transact ClusterController.northbound ["lr"]
      routedOperations).isSome = true := by decide +kernel
  have hname : FitColumns (northboundColumns typeLogicalRouter)
      [("name", (.strings ["n-edge"] : Datum Ref))] :=
    fit_one _ (d := .strings [""]) (by decide) fun _ => rfl
  obtain ⟨p, hp⟩ := Option.isSome_iff_exists.mp hsome
  obtain ⟨mid, htr⟩ := Ovsdb.transacted hp
  have hcons := htr.consistent flat_northbound (consistent_assign consistent_lanDatabase) fun op hop => by
    rw [List.mem_singleton.mp hop]
    exact ⟨⟨_, .tail _ (.head _), .inl rfl⟩, hname⟩
  unfold routedDatabase
  rw [hp]
  exact hcons

def centralNode : Node :=
  ⟨⟨"", "node-a", 1, 1, [( ovnCentralManagedLabel, "managed")],
    [( ovnCentralIpAnnotation, "192.0.2.1")], [], none⟩, (), none⟩

/-- The VM on the port, with user data. -/
def bootedVm : VirtualMachine where
  metadata := ⟨"default", "web", 1, 1, [], [], [], none⟩
  spec := { plainSpec with userdata := some "cloud", uuid := some "52e3" }
  status := some { initialStatus "default-web" with
    networks := [{ NetworkAttachment.default with ovnId := some "vm-1" }] }

/-- The surroundings with these VMs. -/
def surroundingsOf (vms : List VirtualMachine) : Surroundings where
  nodes := .ok [centralNode]
  connects := fun _ => true
  northbound := routedDatabase
  consistent := consistent_routedDatabase
  vms := .ok vms
  configMap := fun _ => .ok ⟨⟨"default", "cloud", 1, 1, [], [], [], none⟩,
    ⟨some [("userdata", "#cloud-config")]⟩, none⟩

def bootedPort : LogicalSwitchPort :=
  ⟨"p1", "vm-1", "52:54:00:1:2:34 dynamic", "52:54:00:1:2:34 10.0.0.5"⟩

theorem portsWithIp_routed : portsWithIp routedDatabase "10.0.0.5" = [bootedPort] := by
  rfl

theorem reachable_surroundingsOf (vms : List VirtualMachine) : (surroundingsOf vms).Reachable :=
  ⟨[centralNode], rfl, centralNode, List.mem_cons_self, .inl (by decide +kernel), "192.0.2.1",
    by decide +kernel, rfl⟩

theorem eval_surroundingsOf (vms : List VirtualMachine) :
    (handleRequest "10.0.0.5").eval (surroundingsOf vms).answer =
      (surroundingsOf vms).aboutPorts "10.0.0.5" [bootedPort] := by
  rw [eval_handleRequest]
  rcases eval_ovnTryFromAnnotations (s := surroundingsOf vms) with ⟨hok, -⟩ | ⟨-, hreach⟩
  · rw [hok]
    show (surroundingsOf vms).aboutPorts "10.0.0.5" (portsWithIp routedDatabase "10.0.0.5") = _
    rw [portsWithIp_routed]
  · exact absurd (reachable_surroundingsOf vms) hreach

/-- The service of the router answers with the payload of a VM that is not on the router. -/
theorem payload_of_another_network :
    (handleRequest "10.0.0.5").eval (surroundingsOf [bootedVm]).answer =
      .ok (.ok ⟨"10.0.0.5", "52e3", "web", "#cloud-config"⟩) ∧
    portsWithIp (surroundingsOf [bootedVm]).northbound "10.0.0.5" = [bootedPort] ∧
    matchingVms bootedPort [bootedVm] = [bootedVm] ∧
    routerName "n/edge" = .ok "n-edge" ∧
    ¬OnRouter (surroundingsOf [bootedVm]).northbound "n-edge" bootedPort := by
  refine ⟨?_, portsWithIp_routed, rfl, by decide, ?_⟩
  · rw [eval_surroundingsOf]
    rfl
  · rintro ⟨ls, -, -, lsp, -, -, options, -, lr, -, -, lrp, hlrp, -⟩
    have hnone : routedDatabase typeLogicalRouterPort = [] := by decide +kernel
    rw [show (surroundingsOf [bootedVm]).northbound = routedDatabase by rfl, hnone] at hlrp
    cases hlrp

/-- A port without a VM ends the backend. -/
theorem port_without_vm :
    main [⟨"10.0.0.5", true, surroundingsOf []⟩] =
      ([none], .panicked "assertion failed: `(left == right)`") ∧
    ¬StaysUp [⟨"10.0.0.5", true, surroundingsOf []⟩] := by
  have hmain : main [⟨"10.0.0.5", true, surroundingsOf []⟩] =
      ([none], .panicked "assertion failed: `(left == right)`") := by
    rw [main, eval_surroundingsOf]
    rfl
  refine ⟨hmain, ?_⟩
  rintro ⟨responses, -, h⟩
  rw [hmain] at h
  cases (Prod.mk.inj h).2

/-- The only VM of the port is described, or there is no answer about a second port. -/
theorem metadata_by_address_web :
    ∃ port vms vm, portsWithIp (surroundingsOf [bootedVm]).northbound "10.0.0.5" = [port] ∧
      (surroundingsOf [bootedVm]).vms = .ok vms ∧ matchingVms port vms = [vm] ∧
      Describes (surroundingsOf [bootedVm]) "10.0.0.5" vm ⟨"10.0.0.5", "52e3", "web", "#cloud-config"⟩ := by
  have heval : (handleRequest "10.0.0.5").eval (surroundingsOf [bootedVm]).answer =
      .ok (.ok ⟨"10.0.0.5", "52e3", "web", "#cloud-config"⟩) := by
    rw [eval_surroundingsOf]
    rfl
  obtain ⟨port, vms, vm, hp, hv, hm, hd, -⟩ := (metadata_by_address _ _).1 _ heval
  exact ⟨port, vms, vm, hp, hv, hm, hd⟩

end Examples

end ClusterController.Metadata
