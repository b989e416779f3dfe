import ClusterController.MetadataBackend
import ClusterController.Lib.Mailbox

/-!
# The metadata service as a whole

`metadataservice`: the proxy answers HTTP requests. For the pages about an instance it asks the backend
through a channel with room for 16 requests, and waits for the response on a channel of its own. The
supervisor ends the process when the backend ends.
-/

namespace ClusterController.Metadata

open Mailbox (Event Moves Protocol Server Stage State)

/-! ## The proxy -/

/-- The pages of `MetadataProxy::main` and `openstack_api`. -/
inductive Page : Type
  | root
  | openstackRoot
  | openstackLatest
  | openstackLatestMetadata
  | openstackLatestUserdata
deriving DecidableEq

/-- `MetadataProxy::openstack_api`: the page of the rest of a path. -/
def openstackApi : List String → Option Page
  | [] => some .openstackRoot
  | ["latest"] => some .openstackLatest
  | ["latest", "meta_data.json"] => some .openstackLatestMetadata
  | ["latest", "user_data"] => some .openstackLatestUserdata
  | _ => none

/-- The filters of `MetadataProxy::main`: the page of a path, which is given by its segments. -/
def route : List String → Option Page
  | [] => some .root
  | "openstack" :: rest => openstackApi rest
  | _ => none

/-- What is sent back: a text, or an object with texts in its fields. -/
inductive Body : Type
  | text (s : String)
  | json (fields : List (String × String))
deriving DecidableEq

inductive Reply : Type
  | ok (body : Body)
  | notFound
deriving DecidableEq

/-- A page shows a fixed text or the metadata of the client. -/
inductive Content : Type
  | fixed (body : Body)
  | about (body : MetadataPayload → Body)

/-- What a page shows. `version` is the text of `get_version_string`. -/
def Page.content (version : String) : Page → Content
  | .root => .about fun metadata => .text ("Metadata proxy from " ++ version ++ "\nClient IP: " ++
      metadata.ip ++ "\nInstance ID: " ++ metadata.instanceId ++ "\nHostname: " ++ metadata.hostname ++
      "\nMetadata: " ++ metadata.userData ++ "\n")
  | .openstackRoot => .fixed (.text "latest")
  | .openstackLatest => .fixed (.text "meta_data.json\nuser_data")
  | .openstackLatestMetadata => .about fun metadata =>
      .json [("uuid", metadata.instanceId), ("hostname", metadata.hostname)]
  | .openstackLatestUserdata => .about fun metadata => .text metadata.userData

/-- The address that a connection comes from. -/
inductive SocketAddr : Type
  | v4 (ip : String)
  | v6 (ip : String)

def extractIpv4Address : Option SocketAddr → Option String
  | some (.v4 ip) => some ip
  | _ => none

structure HttpRequest where
  path : List String
  remote : Option SocketAddr

/-- The proxy replies at once, or it asks the backend about an address. -/
inductive Intake : Type
  | replied (reply : Reply)
  | asks (ip : String) (body : MetadataPayload → Body)

def intake (version : String) (request : HttpRequest) : Intake :=
  match route request.path with
  | none => .replied .notFound
  | some page =>
    match page.content version with
    | .fixed body => .replied (.ok body)
    | .about body =>
      match extractIpv4Address request.remote with
      | some ip => .asks ip body
      | none => .replied .notFound

/-- The end of `fetch_metadata`: the reply that a response leads to. -/
def replyOf (body : MetadataPayload → Body) : MetadataResponse → Reply
  | .ok metadata => .ok (body metadata)
  | .error _ => .notFound

/-! ## The service -/

/-- `REQUEST_CHANNEL_BUFFER_SIZE` -/
def requestChannelBufferSize : Nat := 16

/-- How the backend ends on a request. -/
inductive Failure : Type
  | error (e : Error)
  | panic (message : String)

/-- The backend behind its channel. -/
def backend : Protocol String MetadataResponse Surroundings Failure where
  capacity := requestChannelBufferSize
  handle ip surroundings :=
    match (handleRequest ip).eval surroundings.answer with
    | .ok response => .ok response
    | .err e => .error (.error e)
    | .aborted message => .error (.panic message)

/-- An HTTP request, with the number of its client if it asks the backend. -/
structure Exchange where
  request : HttpRequest
  client : Option Nat

/-- The proxy and the backend. `exited` is set when the supervisor has ended the process. -/
structure Service where
  mailbox : State String MetadataResponse Surroundings Failure
  exchanges : List Exchange
  exited : Bool

/-- A request arrives, something happens between the proxy, the backend and the clients, or the
supervisor ends the process. -/
inductive ServiceEvent : Type
  | request (request : HttpRequest)
  | inner (e : Event String Surroundings)
  | exit

namespace Service

def initial : Service := ⟨.initial, [], false⟩

/-- What happens, if it can. Clients get into the mailbox by a request alone. -/
def step (version : String) (s : Service) : ServiceEvent → Option Service
  | .request request =>
    if s.exited then none
    else match intake version request with
      | .replied _ => some { s with exchanges := s.exchanges ++ [⟨request, none⟩] }
      | .asks ip _ => (s.mailbox.step backend (.ask ip)).map fun mailbox =>
          { s with
            mailbox := mailbox
            exchanges := s.exchanges ++ [⟨request, some s.mailbox.clients.length⟩] }
  | .inner (.ask _) => none
  | .inner e => if s.exited then none else (s.mailbox.step backend e).map ({ s with mailbox := · })
  | .exit => if s.exited = false ∧ s.mailbox.server.ended.isSome then some { s with exited := true } else none

def run (version : String) : Service → List ServiceEvent → Option Service
  | s, [] => some s
  | s, e :: es =>
    match s.step version e with
    | some t => t.run version es
    | none => none

/-- The reply that a request has got. -/
def reply (version : String) (s : Service) (x : Exchange) : Option Reply :=
  match intake version x.request with
  | .replied reply => some reply
  | .asks _ body =>
    match x.client.bind (s.mailbox.clients[·]?) with
    | some ⟨_, .received response⟩ => some (replyOf body response)
    | _ => none

/-- The client has left before it got its reply. -/
def Left (s : Service) (x : Exchange) : Prop :=
  ∃ i ip, x.client = some i ∧ s.mailbox.clients[i]? = some ⟨ip, .gone⟩

/-- The requests that the backend has handled, the first one first. -/
def turns (s : Service) : List Turn :=
  s.mailbox.turns.map fun turn => ⟨turn.query, turn.waits, turn.env⟩

/-- Where the loop of the backend is. -/
def loopState (s : Service) : LoopState :=
  match s.mailbox.server.ended with
  | none => .listening
  | some none => .returned none
  | some (some (.error e)) => .returned (some e)
  | some (some (.panic message)) => .panicked message

end Service

/-! ## The loop of the backend -/

section Runs

variable {version : String} {s t : Service} {e : ServiceEvent} {x : Exchange}

/-- The backend behind the channel runs the loop of `MetadataBackend::main`. -/
theorem main_of_serve (turns : List (Mailbox.Turn String Surroundings)) :
    main (turns.map fun turn => ⟨turn.query, turn.waits, turn.env⟩) =
      ((backend.serve turns).1, match (backend.serve turns).2 with
        | none => .listening
        | some none => .returned none
        | some (some (.error e)) => .returned (some e)
        | some (some (.panic message)) => .panicked message) := by
  induction turns with
  | nil => rfl
  | cons turn turns ih =>
    rw [List.map_cons, main, Protocol.serve]
    unfold backend at ih ⊢
    dsimp only
    cases heval : (handleRequest turn.query).eval turn.env.answer with
    | err e => rfl
    | aborted message => rfl
    | ok response =>
      dsimp only
      cases turn.waits with
      | false => rfl
      | true => rw [if_pos rfl, if_pos rfl, ih]

/-- The backend has stopped exactly if a client had left before its response, or a request could not be
answered. -/
theorem ends_iff {turns : List (Mailbox.Turn String Surroundings)} : (backend.serve turns).2 ≠ none ↔
    ∃ turn ∈ turns, turn.waits = false ∨ ¬turn.env.Answerable turn.query := by
  have hok : ∀ ip (surroundings : Surroundings),
      (∃ response, backend.handle ip surroundings = .ok response) ↔ surroundings.Answerable ip := by
    intro ip surroundings
    rw [← handleRequest_isOk]
    unfold backend
    dsimp only
    cases (handleRequest ip).eval surroundings.answer <;> simp
  rw [Ne, Mailbox.serve_goes_on_iff]
  simp only [hok, not_forall, not_and_or, Bool.not_eq_true, exists_prop]

/-! ## What clients get -/

/-- * `mailbox`: the proxy and the backend keep to their protocol
* `clients`: each request that asks the backend has a client of its own
* `queries`: it asks about the address that the request comes from -/
structure Service.Sound (version : String) (s : Service) : Prop where
  mailbox : Mailbox.Sound backend s.mailbox
  clients : s.exchanges.filterMap Exchange.client = List.range s.mailbox.clients.length
  queries : ∀ x ∈ s.exchanges, ∀ ip body, intake version x.request = .asks ip body →
    ∃ i c, x.client = some i ∧ s.mailbox.clients[i]? = some c ∧ c.query = ip

theorem sound_initial : Service.initial.Sound version :=
  ⟨Mailbox.sound_initial, rfl, fun _ hx => nomatch hx⟩

theorem step_inner {e : Event String Surroundings} (he : ∀ q, e ≠ .ask q) : s.step version (.inner e) =
    if s.exited then none else (s.mailbox.step backend e).map ({ s with mailbox := · }) := by
  cases e with
  | ask q => exact absurd rfl (he q)
  | _ => rfl

/-- An event between the proxy, the backend and the clients. -/
theorem moves_of_inner {e : Event String Surroundings} (h : s.step version (.inner e) = some t) :
    (∀ q, e ≠ .ask q) ∧ ∃ m, Moves backend s.mailbox e m ∧ t = { s with mailbox := m } := by
  have he : ∀ q, e ≠ .ask q := by
    rintro q rfl
    cases h
  rw [step_inner he] at h
  split at h
  · cases h
  · obtain ⟨m, hm, rfl⟩ := Option.map_eq_some_iff.mp h
    exact ⟨he, m, Mailbox.moves_of_step hm, rfl⟩

theorem Service.Sound.step (hs : s.Sound version) (h : s.step version e = some t) : t.Sound version := by
  cases e with
  | request request =>
    simp only [Service.step] at h
    split at h
    · cases h
    · split at h
      · next reply hintake =>
        cases h
        refine ⟨hs.mailbox, ?_, fun x hx ip body ha => ?_⟩
        · rw [List.filterMap_append, hs.clients]
          exact List.append_nil _
        · rcases List.mem_append.mp hx with hx | hx
          · exact hs.queries x hx ip body ha
          · rw [List.mem_singleton.mp hx, hintake] at ha
            cases ha
      · next ip body hintake =>
        obtain ⟨m, hm, rfl⟩ := Option.map_eq_some_iff.mp h
        cases hm
        have hm := Moves.ask (P := backend) (s := s.mailbox) ip
        refine ⟨hs.mailbox.step hm, ?_, fun x hx ip' body' ha => ?_⟩
        · rw [List.filterMap_append, hs.clients, List.length_append, List.length_singleton, List.range_succ]
          rfl
        · rcases List.mem_append.mp hx with hx | hx
          · obtain ⟨i, c, hi, hc, hq⟩ := hs.queries x hx ip' body' ha
            obtain ⟨c', hc', hq'⟩ := hm.query hc
            exact ⟨i, c', hi, hc', hq'.trans hq⟩
          · obtain rfl := List.mem_singleton.mp hx
            cases hintake.symm.trans ha
            exact ⟨_, ⟨ip, .sending⟩, rfl, by simp, rfl⟩
  | inner e =>
    obtain ⟨hask, m, hm, rfl⟩ := moves_of_inner h
    refine ⟨hs.mailbox.step hm, ?_, fun x hx ip body ha => ?_⟩
    · exact hs.clients.trans (congrArg List.range (hm.length hask).symm)
    · obtain ⟨i, c, hi, hc, hq⟩ := hs.queries x hx ip body ha
      obtain ⟨c', hc', hq'⟩ := hm.query hc
      exact ⟨i, c', hi, hc', hq'.trans hq⟩
  | exit =>
    simp only [Service.step] at h
    split at h
    · cases h
      exact ⟨hs.mailbox, hs.clients, hs.queries⟩
    · cases h

theorem Service.Sound.run {es : List ServiceEvent} (hs : s.Sound version) (h : s.run version es = some t) :
    t.Sound version := by
  induction es generalizing s with
  | nil =>
    cases h
    exact hs
  | cons e es ih =>
    rw [Service.run] at h
    split at h
    · next s₁ h₁ => exact ih (hs.step h₁) h
    · cases h

/-- The page is a fixed text, or it shows the metadata of the only instance that has the address
which the request comes from, as the backend found it when it was the turn of the client. -/
inductive Shows (version : String) (s : Service) (x : Exchange) (body : Body) : Prop
  | fixed {page : Page} : route x.request.path = some page → page.content version = .fixed body →
      Shows version s x body
  | own {page : Page} {shown : MetadataPayload → Body} {ip : String}
      {turn : Mailbox.Turn String Surroundings} {payload : MetadataPayload} {port : LogicalSwitchPort}
      {vms : List VirtualMachine} {vm : VirtualMachine} :
      route x.request.path = some page → page.content version = .about shown →
      x.request.remote = some (.v4 ip) → turn ∈ s.mailbox.turns → x.client = some turn.client →
      turn.query = ip → portsWithIp turn.env.northbound ip = [port] → turn.env.vms = .ok vms →
      matchingVms port vms = [vm] → Describes turn.env ip vm payload → body = shown payload →
      Shows version s x body

theorem intake_replied {request : HttpRequest} {body : Body}
    (h : intake version request = .replied (.ok body)) :
    ∃ page, route request.path = some page ∧ page.content version = .fixed body := by
  unfold intake at h
  split at h
  · cases h
  · next page hpage =>
    split at h
    · next body' hbody =>
      cases h
      exact ⟨page, hpage, hbody⟩
    · split at h <;> cases h

theorem intake_asks {request : HttpRequest} {ip : String} {shown : MetadataPayload → Body}
    (h : intake version request = .asks ip shown) : ∃ page, route request.path = some page ∧
      page.content version = .about shown ∧ request.remote = some (.v4 ip) := by
  unfold intake at h
  split at h
  · cases h
  · next page hpage =>
    split at h
    · cases h
    · next body hbody =>
      split at h
      · next ip' hip =>
        cases h
        refine ⟨page, hpage, hbody, ?_⟩
        unfold extractIpv4Address at hip
        split at hip <;> cases hip
        assumption
      · cases h

theorem Service.Sound.shows {body : Body} (hs : s.Sound version) (hx : x ∈ s.exchanges)
    (h : s.reply version x = some (.ok body)) : Shows version s x body := by
  unfold Service.reply at h
  split at h
  · next reply hintake =>
    cases h
    obtain ⟨page, hpage, hbody⟩ := intake_replied hintake
    exact .fixed hpage hbody
  · next ip shown hintake =>
    obtain ⟨page, hpage, hbody, hremote⟩ := intake_asks hintake
    obtain ⟨i, c, hi, hc, hq⟩ := hs.queries x hx ip shown hintake
    split at h
    · next ip' response hclient =>
      rw [hi] at hclient
      obtain rfl := Option.some.inj (hc.symm.trans hclient)
      obtain ⟨turn, hturn, hti, -, hhandle⟩ := hs.mailbox.answers i _ response hc rfl
      obtain ⟨c', hc', hq'⟩ := hs.mailbox.queries turn hturn
      rw [hti, hc] at hc'
      cases hc'
      cases response with
      | error e => cases h
      | ok payload =>
        have hrequest : (handleRequest ip').eval turn.env.answer = .ok (.ok payload) := by
          unfold backend at hhandle
          dsimp only at hhandle
          split at hhandle <;> cases hhandle
          assumption
        have hip : ip' = ip := hq
        subst hip
        obtain ⟨port, vms, vm, hport, hvms, hvm, hdescribes⟩ := payload_of_port hrequest
        exact .own hpage hbody hremote hturn (hi.trans (congrArg some hti.symm)) hq'.symm hport hvms hvm
          hdescribes (Reply.ok.inj (Option.some.inj h)).symm
    · cases h

/-- The loop of the backend has got to each request that the backend has handled, and has sent what
clients have received. -/
theorem Service.Sound.main (hs : s.Sound version) : (main s.turns).2 = s.loopState ∧
    (main s.turns).1.length = s.turns.length ∧
    ∀ i ip response, s.mailbox.clients[i]? = some ⟨ip, .received response⟩ →
      ∃ k : Nat, (s.mailbox.turns.map Mailbox.Turn.client)[k]? = some i ∧
        (main s.turns).1[k]? = some (some response) := by
  unfold Service.turns Service.loopState
  rw [main_of_serve, hs.mailbox.served]
  refine ⟨rfl, hs.mailbox.lengths.trans (List.length_map _).symm, fun i ip response hc => ?_⟩
  exact hs.mailbox.answered hc rfl

/-- In every order of steps the backend does what its loop does with the requests in the order in
which they were sent, none twice, clients receive the responses of the loop, and what a client is shown
is about the only instance with its address. -/
theorem service_serves {es : List ServiceEvent} (h : Service.initial.run version es = some s) :
    ((main s.turns).2 = s.loopState ∧ (main s.turns).1.length = s.turns.length ∧
      ∀ i ip response, s.mailbox.clients[i]? = some ⟨ip, .received response⟩ →
        ∃ k : Nat, (s.mailbox.turns.map Mailbox.Turn.client)[k]? = some i ∧
          (main s.turns).1[k]? = some (some response)) ∧
      s.mailbox.turns.map Mailbox.Turn.client <+: s.mailbox.sent ∧
      s.mailbox.sent.Nodup ∧ (s.exchanges.filterMap Exchange.client).Nodup ∧
      ∀ x ∈ s.exchanges, ∀ body, s.reply version x = some (.ok body) → Shows version s x body := by
  have hs : s.Sound version := sound_initial.run h
  refine ⟨hs.main, ?_, hs.mailbox.nodup, ?_, fun x hx body hb => hs.shows hx hb⟩
  · obtain ⟨rest, hrest⟩ := hs.mailbox.order
    exact ⟨s.mailbox.server.current ++ s.mailbox.channel ++ rest, by rw [← hrest]; simp⟩
  · rw [hs.clients]
    exact List.nodup_range

/-! ## Coming to rest -/

/-- The service itself takes the step, not a client that comes or leaves. -/
def ServiceEvent.IsOwn : ServiceEvent → Prop
  | .request _ => False
  | .inner e => e.IsOwn
  | .exit => True

theorem step_exited (hx : s.exited = true) : s.step version e = none := by
  cases e with
  | request request => exact if_pos hx
  | exit => exact if_neg fun h => by rw [hx] at h; cases h.1
  | inner e =>
    cases e with
    | ask q => rfl
    | _ => exact if_pos hx

/-- An own step makes the work less, or ends the process. -/
theorem work_of_step (he : e.IsOwn) (h : s.step version e = some t) :
    t.mailbox.work < s.mailbox.work ∨ t.exited = true := by
  cases e with
  | request request => exact he.elim
  | exit =>
    simp only [Service.step] at h
    split at h
    · cases h
      exact .inr rfl
    · cases h
  | inner e =>
    obtain ⟨-, m, hm, rfl⟩ := moves_of_inner h
    exact .inl (Mailbox.work_lt hm he)

theorem length_le_work {es : List ServiceEvent} (hes : ∀ e ∈ es, e.IsOwn) (h : s.run version es = some t) :
    es.length ≤ s.mailbox.work + 1 := by
  induction es generalizing s with
  | nil => exact Nat.zero_le _
  | cons e es ih =>
    rw [Service.run] at h
    split at h
    · next s₁ h₁ =>
      rcases work_of_step (hes e List.mem_cons_self) h₁ with hlt | hexited
      · have hle := ih (fun e he => hes e (List.mem_cons_of_mem _ he)) h
        rw [List.length_cons]
        omega
      · -- nothing happens in a process that has ended
        cases es with
        | nil => exact Nat.le_add_left 1 _
        | cons e' es =>
          rw [Service.run, step_exited hexited] at h
          cases h
    · cases h

/-- Nothing can happen unless a client comes or leaves. -/
def Service.Rests (version : String) (s : Service) : Prop := ∀ e, e.IsOwn → s.step version e = none

instance : Nonempty Surroundings := ⟨surroundingsOf []⟩

/-- A backend that has stopped takes the process down. -/
theorem exited_of_rests (hrests : s.Rests version) (hended : s.mailbox.server.ended ≠ none) :
    s.exited = true := by
  have hexit := hrests .exit trivial
  by_contra hne
  have hrun : s.exited = false := by simpa using hne
  simp only [Service.step, hrun, Option.ne_none_iff_isSome.mp hended, and_self, if_true] at hexit
  cases hexit

theorem Service.Sound.settled (hs : s.Sound version) (hrests : s.Rests version)
    (hrun : s.exited = false) (hx : x ∈ s.exchanges) : (s.reply version x).isSome = true ∨ s.Left x := by
  have hended : s.mailbox.server.ended = none := by
    by_contra hne
    rw [exited_of_rests hrests hne] at hrun
    cases hrun
  have hquiet : Mailbox.Quiet backend s.mailbox := by
    intro e he
    have hask : ∀ q, e ≠ .ask q := by
      rintro q rfl
      exact he
    have h := hrests (.inner e) he
    rwa [step_inner hask, hrun, if_neg Bool.false_ne_true, Option.map_eq_none_iff] at h
  cases hintake : intake version x.request with
  | replied reply =>
    refine .inl ?_
    unfold Service.reply
    rw [hintake]
    rfl
  | asks ip body =>
    obtain ⟨i, ⟨q, stage⟩, hi, hc, -⟩ := hs.queries x hx ip body hintake
    have hover : stage.IsOver := Mailbox.settled_of_quiet hs.mailbox (by decide) hquiet hc
    cases stage with
    | received response =>
      refine .inl ?_
      unfold Service.reply
      rw [hintake, hi]
      simp only [Option.bind_some, hc]
      rfl
    | gone => exact .inr ⟨i, q, hi, hc⟩
    | failed => exact absurd hc (hs.mailbox.failed hended i q)
    | _ => exact hover.elim

theorem listening_iff : s.loopState = .listening ↔ s.mailbox.server.ended = none := by
  unfold Service.loopState
  match s.mailbox.server.ended with
  | none => simp
  | some none => simp
  | some (some (.error e)) => simp
  | some (some (.panic message)) => simp

/-- In every order of steps the service comes to rest by itself. Then each client has got its reply
or has left, unless the process has ended. The backend stops exactly if a client left before its response
or a request could not be answered, and the process ends with it. -/
theorem service_settles {es : List ServiceEvent} (h : Service.initial.run version es = some s) :
    (∀ own t, (∀ e ∈ own, e.IsOwn) → s.run version own = some t → own.length ≤ s.mailbox.work + 1) ∧
      (s.Rests version → s.exited = false →
        ∀ x ∈ s.exchanges, (s.reply version x).isSome = true ∨ s.Left x) ∧
      (s.Rests version → s.loopState ≠ .listening → s.exited = true) ∧
      (s.loopState ≠ .listening ↔ ∃ turn ∈ s.turns, turn.waiting = false ∨
        ¬turn.surroundings.Answerable turn.ip) := by
  have hs : s.Sound version := sound_initial.run h
  refine ⟨fun own t hown hrun => length_le_work hown hrun, fun hrests hrun x hx => hs.settled hrests hrun hx,
    fun hrests hstopped => exited_of_rests hrests (mt listening_iff.mpr hstopped), ?_⟩
  rw [Ne, listening_iff, ← hs.mailbox.served, ← Ne, ends_iff]
  unfold Service.turns
  simp only [List.mem_map, exists_exists_and_eq_and]

end Runs

/-! ## Clients that wait and one that leaves -/

section Examples

/-- Another VM, on the second port. -/
def databaseVm : VirtualMachine where
  metadata := ⟨"default", "db", 1, 1, [], [], [], none⟩
  spec := { plainSpec with userdata := some "cloud", uuid := some "7b10" }
  status := some { initialStatus "default-db" with
    networks := [{ NetworkAttachment.default with ovnId := some "vm-2" }] }

/-- Both VMs have addresses. -/
def sharedSurroundings : Surroundings :=
  { surroundingsOf [bootedVm, databaseVm] with
    northbound := routedDatabase.modifyRow typeLogicalSwitchPort "p2" fun r =>
      r.modify "dynamic_addresses" fun _ => .strings ["52:54:00:a1:b2:c3 10.0.0.6"]
    consistent := consistent_assign consistent_routedDatabase }

theorem eval_shared (ip : String) : (handleRequest ip).eval sharedSurroundings.answer =
    sharedSurroundings.aboutPorts ip (portsWithIp sharedSurroundings.northbound ip) := by
  rw [eval_handleRequest]
  rcases eval_ovnTryFromAnnotations (s := sharedSurroundings) with ⟨hok, -⟩ | ⟨-, hreach⟩
  · rw [hok]
    rfl
  · exact absurd (reachable_surroundingsOf [bootedVm, databaseVm]) hreach

theorem handle_of_eval {ip : String} {surroundings : Surroundings} {response : MetadataResponse}
    (h : (handleRequest ip).eval surroundings.answer = .ok response) :
    backend.handle ip surroundings = .ok response := by
  unfold backend
  dsimp only
  rw [h]

theorem handle_web : backend.handle "10.0.0.5" sharedSurroundings =
    .ok (.ok ⟨"10.0.0.5", "52e3", "web", "#cloud-config"⟩) := by
  refine handle_of_eval ?_
  rw [eval_shared]
  rfl

theorem handle_database : backend.handle "10.0.0.6" sharedSurroundings =
    .ok (.ok ⟨"10.0.0.6", "7b10", "db", "#cloud-config"⟩) := by
  refine handle_of_eval ?_
  rw [eval_shared]
  rfl

/-- The backend responds to a client that waits. -/
theorem run_respond {es : List ServiceEvent} {clients : List (Mailbox.Client String MetadataResponse)}
    {channel sent : List Nat} {turns : List (Mailbox.Turn String Surroundings)} {exchanges : List Exchange}
    {i : Nat} {ip : String} {surroundings : Surroundings} {response : MetadataResponse}
    (hi : clients[i]? = some ⟨ip, .waiting⟩) (hr : backend.handle ip surroundings = .ok response) :
    Service.run version ⟨⟨clients, channel, .working i, sent, turns⟩, exchanges, false⟩
        (.inner (.respond surroundings) :: es) =
      Service.run version ⟨⟨clients.modify i fun c => { c with stage := .answered response }, channel,
        .listening, sent, turns ++ [⟨i, ip, surroundings, true⟩]⟩, exchanges, false⟩ es := by
  simp only [Service.run, Service.step, State.step, hi, hr]
  rfl

/-- A client asks for its user data. -/
def userdataRequest : HttpRequest := ⟨["openstack", "latest", "user_data"], some (.v4 "10.0.0.5")⟩

/-- A client asks for its instance. -/
def metadataRequest : HttpRequest := ⟨["openstack", "latest", "meta_data.json"], some (.v4 "10.0.0.6")⟩

/-- The second client gets into the channel before the first one, which reads its response first. -/
def interleavedEvents : List ServiceEvent :=
  [.request userdataRequest, .request metadataRequest, .inner (.send 1), .inner .receive, .inner (.send 0),
    .inner (.respond sharedSurroundings), .inner .receive, .inner (.respond sharedSurroundings),
    .inner (.deliver 0), .inner (.deliver 1)]

theorem service_serves_web : ∃ (s : Service) (x y : Exchange),
    Service.initial.run "1" interleavedEvents = some s ∧ s.exchanges = [x, y] ∧ s.mailbox.sent = [1, 0] ∧
      (main s.turns).2 = .listening ∧ Shows "1" s x (.text "#cloud-config") ∧
      Shows "1" s y (.json [("uuid", "7b10"), ("hostname", "db")]) := by
  have hrun : Service.initial.run "1" interleavedEvents = some
      ⟨⟨[⟨"10.0.0.5", .received (.ok ⟨"10.0.0.5", "52e3", "web", "#cloud-config"⟩)⟩,
          ⟨"10.0.0.6", .received (.ok ⟨"10.0.0.6", "7b10", "db", "#cloud-config"⟩)⟩], [], .listening, [1, 0],
        [⟨1, "10.0.0.6", sharedSurroundings, true⟩, ⟨0, "10.0.0.5", sharedSurroundings, true⟩]⟩,
        [⟨userdataRequest, some 0⟩, ⟨metadataRequest, some 1⟩], false⟩ := by
    show Service.run "1" ⟨⟨[⟨"10.0.0.5", .waiting⟩, ⟨"10.0.0.6", .waiting⟩], [0], .working 1, [1, 0], []⟩,
      [⟨userdataRequest, some 0⟩, ⟨metadataRequest, some 1⟩], false⟩ _ = _
    rw [run_respond rfl handle_database]
    show Service.run "1" ⟨⟨[⟨"10.0.0.5", .waiting⟩, ⟨"10.0.0.6", .answered _⟩], [], .working 0, [1, 0],
      [_]⟩, _, false⟩ _ = _
    rw [run_respond rfl handle_web]
    rfl
  have hserves := service_serves hrun
  exact ⟨_, _, _, hrun, rfl, rfl, hserves.1.1, hserves.2.2.2.2 _ List.mem_cons_self _ rfl,
    hserves.2.2.2.2 _ (.tail _ List.mem_cons_self) _ rfl⟩

/-- A client that leaves takes the whole service down. -/
theorem service_settles_left : ∃ (s : Service) (es : List ServiceEvent),
    Service.initial.run "1" es = some s ∧ s.loopState = .returned none ∧
      ∃ turn ∈ s.turns, turn.waiting = false ∨ ¬turn.surroundings.Answerable turn.ip := by
  have hrun : Service.initial.run "1" [.request userdataRequest, .inner (.send 0), .inner .receive,
      .inner (.leave 0), .inner (.respond sharedSurroundings), .exit] = some
        ⟨⟨[⟨"10.0.0.5", .gone⟩], [], .stopped none, [0],
          [⟨0, "10.0.0.5", sharedSurroundings, false⟩]⟩, [⟨userdataRequest, some 0⟩], true⟩ := by
    show Service.run "1" ⟨⟨[⟨"10.0.0.5", .gone⟩], [], .working 0, [0], []⟩, [⟨userdataRequest, some 0⟩], false⟩
      [.inner (.respond sharedSurroundings), .exit] = _
    simp only [Service.run, Service.step, State.step, List.getElem?_cons_zero]
    rw [handle_web]
    rfl
  exact ⟨_, _, hrun, rfl, (service_settles hrun).2.2.2.mp fun h => by cases h⟩

end Examples

end ClusterController.Metadata
