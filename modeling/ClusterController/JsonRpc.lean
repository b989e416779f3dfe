import ClusterController.Lib.Ovsdb

/-!
# The JSON-RPC connection

`interfaces::ovn::jsonrpc`: one connection carries the requests of all calls, and what the server
sends, which are their responses and requests and notifications of its own. A call reads message by
message until the response with its id. What `serde_json` does with bytes is a parameter.
-/

namespace ClusterController.JsonRpc

open Ovsdb (Json)

/-! ## Messages -/

inductive Params : Type
  | byPosition (params : List Json)
  | byName (params : List (String × Json))

namespace Params

def fromJson : Json → Except String Params
  | .arr params => .ok (.byPosition params)
  | .obj params => .ok (.byName params)
  | _ => .error "Bad JSON value for Params"

def serialize : Params → Json
  | .byPosition params => .arr params
  | .byName params => .obj params

def deserialize : Json → Option Params
  | .arr params => some (.byPosition params)
  | .obj params => some (.byName params)
  | _ => none

end Params

inductive Message : Type
  | request (id : Json) (method : String) (params : Params)
  | response (id result error : Json)

/-- The field of a variant. A field that is given twice does not fit. -/
def field (fields : List (String × Json)) (name : String) : Option Json :=
  match fields.filter fun entry => entry.1 = name with
  | [(_, value)] => some value
  | _ => none

namespace Message

def serialize : Message → Json
  | .request id method params =>
    .obj [("id", id), ("method", .str method), ("params", params.serialize)]
  | .response id result error => .obj [("id", id), ("result", result), ("error", error)]

def asRequest (fields : List (String × Json)) : Option Message := do
  let id ← field fields "id"
  let method ← field fields "method"
  let params ← field fields "params"
  return .request id (← method.asStr) (← Params.deserialize params)

def asResponse (fields : List (String × Json)) : Option Message := do
  let id ← field fields "id"
  let result ← field fields "result"
  let error ← field fields "error"
  return .response id result error

/-- The enum is untagged: the first variant that fits. -/
def deserialize (value : Json) : Option Message := do
  let fields ← value.asObject
  (asRequest fields).or (asResponse fields)

end Message

theorem Message.deserialize_serialize (message : Message) :
    Message.deserialize message.serialize = some message := by
  cases message with
  | request id method params => cases params <;> rfl
  | response id result error => rfl

/-! ## The connection -/

/-- What is used of `serde_json`: the bytes of a value, and the next value of a stream with the
bytes behind it, if the stream does not end and goes on with a value. -/
structure SerdeJson where
  toVec : Json → List UInt8
  next : List UInt8 → Option (Json × List UInt8)
  shorter : ∀ {unread rest value}, next unread = some (value, rest) → rest.length < unread.length

/-- `unread` is what the server has sent and no call has read. -/
structure JsonRpcConnection where
  id : UInt64
  written : List UInt8
  unread : List UInt8

/-- The next id, and the connection that has used it up. -/
def nextId (c : JsonRpcConnection) : UInt64 × JsonRpcConnection := (c.id, { c with id := c.id + 1 })

/-- `response_id == &request_id` -/
def isId (requestId : UInt64) : Json → Bool
  | .num n => n = requestId.toNat
  | _ => false

/-- The loop of `request`: the response with the id, and the bytes behind it. -/
def awaitResponse (serde : SerdeJson) (requestId : UInt64) (unread : List UInt8) :
    Except String (Message × List UInt8) :=
  match _h : serde.next unread with
  | none => .error "no response found"
  | some (value, rest) =>
    match Message.deserialize value with
    | none => .error "no response found"
    | some (.request _ _ _) => awaitResponse serde requestId rest
    | some (.response id result error) =>
      if isId requestId id then .ok (.response id result error, rest)
      else awaitResponse serde requestId rest
termination_by unread.length
decreasing_by
  · exact serde.shorter ‹_›
  · exact serde.shorter ‹_›

/-- The server sends `arriving` after the request and before the next one. Reading waits for it. -/
def request (serde : SerdeJson) (c : JsonRpcConnection) (method : String) (params : Params)
    (arriving : List UInt8) : Except String (Message × JsonRpcConnection) := do
  let (requestId, c) := nextId c
  let request := Message.request (.num requestId.toNat) method params
  let written := c.written ++ serde.toVec request.serialize
  let (message, unread) ← awaitResponse serde requestId (c.unread ++ arriving)
  return (message, { c with written := written, unread := unread })

/-- One result of a transaction. -/
def checkResult (result : Json) : Except String Unit :=
  match result.asObject with
  | none => .error "result should be an object"
  | some fields =>
    match fields.lookup "error" with
    | none => .ok ()
    | some .null => .ok ()
    | some _ => .error "assertion failed: error.is_none() || error.unwrap().is_null()"

/-- The results of a transaction. -/
def transactResults : Message → Except String (List Json)
  | .request _ _ _ => .error "Didn't get response"
  | .response _ result .null =>
    match result.asArray with
    | none => .error "result not an array"
    | some results => do
      results.forM checkResult
      return results
  | .response _ _ _ => .error "assertion failed: error.is_null()"

def transact (serde : SerdeJson) (c : JsonRpcConnection) (operations : List Json)
    (arriving : List UInt8) : Except String (List Json × JsonRpcConnection) := do
  let params ← Params.fromJson (.arr (.str "OVN_Northbound" :: operations))
  let (response, c) ← request serde c "transact" params arriving
  let results ← transactResults response
  return (results, c)

/-- A call, and what the server sends after its request and before the next one. -/
structure Call where
  method : String
  params : Params
  arriving : List UInt8

/-- The connection after calls that have all returned. -/
def connectionAfter (serde : SerdeJson) (c : JsonRpcConnection) :
    List Call → Except String JsonRpcConnection
  | [] => .ok c
  | call :: calls => do
    let (_, c) ← request serde c call.method call.params call.arriving
    connectionAfter serde c calls

/-! ## What the server sends -/

/-- A request or a notification. -/
def RequestForm (value : Json) : Prop :=
  ∃ fields id method params, value = .obj fields ∧ field fields "id" = some id ∧
    field fields "method" = some (.str method) ∧ field fields "params" = some params ∧
    (Params.deserialize params).isSome = true

/-- A response. -/
def ResponseForm (value id result error : Json) : Prop :=
  ∃ fields, value = .obj fields ∧ field fields "id" = some id ∧
    field fields "result" = some result ∧ field fields "error" = some error ∧
    ∀ entry ∈ fields, entry.1 ≠ "method"

/-- A message that is not the response to a request: one that the server makes by itself, or the
response to another id. -/
def Unrelated (requestId : Nat) (value : Json) : Prop :=
  RequestForm value ∨ ∃ id result error, ResponseForm value id result error ∧ id ≠ .num requestId

/-- A message with its text. The text of an object ends by itself: whatever follows it, the reader
takes the object and stops behind it. -/
structure Document (serde : SerdeJson) where
  value : Json
  text : List UInt8
  reads : ∀ rest, serde.next (text ++ rest) = some (value, rest)

def bytes {serde : SerdeJson} (documents : List (Document serde)) : List UInt8 :=
  documents.flatMap Document.text

/-- The response to a call, and the bytes that the server has sent behind it. -/
structure Reply where
  result : Json
  error : Json
  behind : List UInt8

/-- The server serves the calls: what is not read yet and what arrives are messages that are not
the response to the request, then the response, then anything. -/
inductive Serves (serde : SerdeJson) : Nat → List UInt8 → List Call → List Reply → Prop
  | done {id : Nat} {unread : List UInt8} : Serves serde id unread [] []
  | call {id : Nat} {unread : List UInt8} {call : Call} {calls : List Call} {reply : Reply}
      {replies : List Reply} {before : List (Document serde)} {response : Document serde} :
      (∀ d ∈ before, Unrelated id d.value) →
      ResponseForm response.value (.num id) reply.result reply.error →
      unread ++ call.arriving = bytes before ++ (response.text ++ reply.behind) →
      Serves serde (id + 1) reply.behind calls replies →
      Serves serde id unread (call :: calls) (reply :: replies)

/-! ## One call -/

section Calls

variable {serde : SerdeJson} {c : JsonRpcConnection} {requestId : UInt64}

theorem deserialize_request {value : Json} (h : RequestForm value) :
    ∃ id method params, Message.deserialize value = some (.request id method params) := by
  obtain ⟨fields, id, method, params, rfl, hid, hmethod, hparams, hsome⟩ := h
  obtain ⟨p, hp⟩ := Option.isSome_iff_exists.mp hsome
  refine ⟨id, method, p, ?_⟩
  simp [Message.deserialize, Message.asRequest, Json.asObject, Json.asStr, hid, hmethod, hparams, hp]

/-- A response has no method, and so it is not taken for a request. -/
theorem deserialize_response {value id result error : Json} (h : ResponseForm value id result error) :
    Message.deserialize value = some (.response id result error) := by
  obtain ⟨fields, rfl, hid, hresult, herror, hmethod⟩ := h
  have hnone : field fields "method" = none := by
    have hfilter : fields.filter (fun entry => entry.1 = "method") = [] := by
      rw [List.filter_eq_nil_iff]
      intro entry hentry
      simpa using hmethod entry hentry
    unfold field
    rw [hfilter]
  simp [Message.deserialize, Message.asRequest, Message.asResponse, Json.asObject, hid, hresult,
    herror, hnone]

theorem isId_iff {id : Json} : isId requestId id = true ↔ id = .num requestId.toNat := by
  unfold isId
  cases id <;> simp

theorem awaitResponse_unrelated {d : Document serde} (h : Unrelated requestId.toNat d.value)
    (rest : List UInt8) :
    awaitResponse serde requestId (d.text ++ rest) = awaitResponse serde requestId rest := by
  rw [awaitResponse]
  split
  · next hnone =>
    rw [d.reads] at hnone
    cases hnone
  · next value rest' hsome =>
    rw [d.reads] at hsome
    cases hsome
    rcases h with h | ⟨id, result, error, h, hid⟩
    · obtain ⟨id, method, params, hmessage⟩ := deserialize_request h
      rw [hmessage]
    · rw [deserialize_response h]
      exact if_neg fun he => hid (isId_iff.mp he)

theorem awaitResponse_own {d : Document serde} {result error : Json}
    (h : ResponseForm d.value (.num requestId.toNat) result error) (rest : List UInt8) :
    awaitResponse serde requestId (d.text ++ rest) =
      .ok (.response (.num requestId.toNat) result error, rest) := by
  rw [awaitResponse]
  split
  · next hnone =>
    rw [d.reads] at hnone
    cases hnone
  · next value rest' hsome =>
    rw [d.reads] at hsome
    cases hsome
    rw [deserialize_response h]
    exact if_pos (isId_iff.mpr rfl)

/-- Messages that are no response to the request are read over. -/
theorem awaitResponse_before {before : List (Document serde)}
    (h : ∀ d ∈ before, Unrelated requestId.toNat d.value) (rest : List UInt8) :
    awaitResponse serde requestId (bytes before ++ rest) = awaitResponse serde requestId rest := by
  induction before with
  | nil => rfl
  | cons d before ih =>
    obtain ⟨hd, hbefore⟩ := List.forall_mem_cons.mp h
    rw [bytes, List.flatMap_cons, List.append_assoc, awaitResponse_unrelated hd]
    exact ih hbefore

/-- The connection after a call that has been served. -/
def afterCall (serde : SerdeJson) (c : JsonRpcConnection) (call : Call) (reply : Reply) :
    JsonRpcConnection where
  id := c.id + 1
  written := c.written ++
    serde.toVec (Message.request (.num c.id.toNat) call.method call.params).serialize
  unread := reply.behind

/-- A call that is served returns its response and leaves what is behind it. -/
theorem request_served {call : Call} {calls : List Call} {reply : Reply} {replies : List Reply}
    (h : Serves serde c.id.toNat c.unread (call :: calls) (reply :: replies)) :
    request serde c call.method call.params call.arriving =
      .ok (.response (.num c.id.toNat) reply.result reply.error, afterCall serde c call reply) := by
  cases h with
  | call hbefore hresponse hstream _ =>
    unfold request nextId
    dsimp only
    rw [hstream, awaitResponse_before hbefore, awaitResponse_own hresponse]
    rfl

/-- A transaction gets the results of its own response. -/
theorem transact_served {operations : List Json} {arriving : List UInt8} {calls : List Call}
    {reply : Reply} {replies : List Reply}
    (h : Serves serde c.id.toNat c.unread
      (⟨"transact", .byPosition (.str "OVN_Northbound" :: operations), arriving⟩ :: calls)
      (reply :: replies)) :
    transact serde c operations arriving = (do
      let results ← transactResults (.response (.num c.id.toNat) reply.result reply.error)
      return (results, afterCall serde c
        ⟨"transact", .byPosition (.str "OVN_Northbound" :: operations), arriving⟩ reply)) := by
  have hrequest := request_served h
  show (request serde c "transact" (.byPosition (.str "OVN_Northbound" :: operations)) arriving >>= _) = _
  rw [hrequest]
  rfl

/-! ## All calls -/

theorem Serves.tail {call : Call} {calls : List Call} {reply : Reply} {replies : List Reply} {id : Nat}
    {unread : List UInt8} (h : Serves serde id unread (call :: calls) (reply :: replies)) :
    Serves serde (id + 1) reply.behind calls replies := by
  cases h with
  | call _ _ _ htail => exact htail

theorem toNat_succ_id (h : c.id.toNat + 1 < 2 ^ 64) : (c.id + 1).toNat = c.id.toNat + 1 := by
  rw [UInt64.toNat_add]
  exact Nat.mod_eq_of_lt h

end Calls

/-- Each call returns the response to its own request, whatever else the server sends, and reads
the stream up to that response. -/
theorem replies_matched (serde : SerdeJson) (c : JsonRpcConnection) (calls : List Call)
    (replies : List Reply) (hcount : c.id.toNat + calls.length < 2 ^ 64)
    (hserves : Serves serde c.id.toNat c.unread calls replies) (k : Nat) (call : Call)
    (hcall : calls[k]? = some call) :
    ∃ reply before after, replies[k]? = some reply ∧
      connectionAfter serde c (calls.take k) = .ok before ∧
      request serde before call.method call.params call.arriving =
        .ok (.response (.num (c.id.toNat + k : Nat)) reply.result reply.error, after) ∧
      after.written = before.written ++
        serde.toVec (Message.request (.num (c.id.toNat + k : Nat)) call.method call.params).serialize ∧
      after.unread = reply.behind ∧ after.id.toNat = c.id.toNat + k + 1 := by
  induction calls generalizing c replies k with
  | nil => cases hcall
  | cons first calls ih =>
    cases replies with
    | nil => cases hserves
    | cons reply replies =>
      rw [List.length_cons] at hcount
      have hfirst := request_served hserves
      have hid : (afterCall serde c first reply).id.toNat = c.id.toNat + 1 := toNat_succ_id (by omega)
      cases k with
      | zero =>
        cases hcall
        exact ⟨reply, c, _, rfl, rfl, hfirst, rfl, rfl, hid⟩
      | succ k =>
        -- The connection behind the first response is served for the other calls.
        obtain ⟨reply', before, after, hreply, hbefore, hrequest, hrest⟩ :=
          ih (afterCall serde c first reply) replies (by omega) (hid ▸ hserves.tail) k hcall
        have hk : c.id.toNat + 1 + k = c.id.toNat + (k + 1) := by omega
        rw [hid, hk] at hrequest hrest
        refine ⟨reply', before, after, hreply, ?_, hrequest, hrest⟩
        rw [List.take_succ_cons, connectionAfter, hfirst]
        exact hbefore

/-! ## Two calls -/

/-- The bytes of a text without characters beyond ASCII. -/
def ascii (text : String) : List UInt8 := text.toList.map fun c => UInt8.ofNat c.toNat

def echoValue : Json := .obj [("id", .num 0), ("method", .str "echo"), ("params", .arr [])]

def resultValue (id : Int) : Json := .obj [("id", .num id), ("result", .arr []), ("error", .null)]

def echoText : List UInt8 := ascii "\x7b\"id\":0,\"method\":\"echo\",\"params\":[]\x7d"

def firstText : List UInt8 := ascii "\x7b\"id\":0,\"result\":[],\"error\":null\x7d"

def secondText : List UInt8 := ascii "\x7b\"id\":1,\"result\":[],\"error\":null\x7d"

/-- The texts that the server sends. -/
def sentTexts : List (List UInt8 × Json) :=
  [(echoText, echoValue), (firstText, resultValue 0), (secondText, resultValue 1)]

/-- A reader and a writer that know the texts of two calls. -/
def echoSerde : SerdeJson where
  toVec value :=
    match value with
    | .obj [("id", .num id), ("method", .str method), ("params", .arr [])] =>
      ascii ("\x7b\"id\":" ++ toString id ++ ",\"method\":\"" ++ method ++ "\",\"params\":[]\x7d")
    | _ => []
  next unread :=
    (sentTexts.find? fun entry => entry.1.isPrefixOf unread).map fun entry =>
      (entry.2, unread.drop entry.1.length)
  shorter := by
    intro unread rest value h
    obtain ⟨entry, hentry, he⟩ := Option.map_eq_some_iff.mp h
    cases he
    have hfound : entry.1.isPrefixOf unread = true := by simpa using List.find?_some hentry
    have hle := (List.isPrefixOf_iff_prefix.mp hfound).length_le
    have hpos : ∀ entry ∈ sentTexts, 0 < entry.1.length := by decide +kernel
    have hpos := hpos entry (List.mem_of_find?_eq_some hentry)
    rw [List.length_drop]
    omega

def echoDocument : Document echoSerde := ⟨echoValue, echoText, fun _ => rfl⟩

def firstDocument : Document echoSerde := ⟨resultValue 0, firstText, fun _ => rfl⟩

def secondDocument : Document echoSerde := ⟨resultValue 1, secondText, fun _ => rfl⟩

/-- The server asks with the id of the first call, and once more behind its response. -/
def echoCalls : List Call :=
  [⟨"list_dbs", .byPosition [], echoText ++ firstText ++ echoText⟩,
    ⟨"list_dbs", .byPosition [], secondText⟩]

def echoReplies : List Reply := [⟨.arr [], .null, echoText⟩, ⟨.arr [], .null, []⟩]

theorem unrelated_echo (requestId : Nat) : Unrelated requestId echoValue :=
  .inl ⟨_, .num 0, "echo", .arr [], rfl, rfl, rfl, rfl, rfl⟩

theorem responseForm_result (id : Int) : ResponseForm (resultValue id) (.num id) (.arr []) .null :=
  ⟨_, rfl, rfl, rfl, rfl, by simp⟩

theorem serves_echo : Serves echoSerde 0 [] echoCalls echoReplies := by
  have hone : ∀ requestId : Nat, ∀ d ∈ [echoDocument], Unrelated requestId d.value := by
    intro requestId d hd
    rw [List.mem_singleton.mp hd]
    exact unrelated_echo requestId
  have hfirst : ResponseForm firstDocument.value (.num (0 : Nat)) (.arr []) .null :=
    responseForm_result 0
  have hsecond : ResponseForm secondDocument.value (.num (0 + 1 : Nat)) (.arr []) .null :=
    responseForm_result 1
  refine .call (hone 0) hfirst ?_ ?_
  · show [] ++ (echoText ++ firstText ++ echoText) = (echoText ++ []) ++ (firstText ++ echoText)
    rw [List.nil_append, List.append_nil, List.append_assoc]
  · refine .call (hone 1) hsecond ?_ .done
    show echoText ++ secondText = (echoText ++ []) ++ (secondText ++ [])
    rw [List.append_nil, List.append_nil]

theorem replies_matched_echo : ∃ before after,
    connectionAfter echoSerde ⟨0, [], []⟩ (echoCalls.take 1) = .ok before ∧
    request echoSerde before "list_dbs" (.byPosition []) secondText =
      .ok (.response (.num 1) (.arr []) .null, after) ∧ after.unread = [] := by
  obtain ⟨reply, before, after, hreply, hbefore, hrequest, -, hunread, -⟩ :=
    replies_matched echoSerde ⟨0, [], []⟩ echoCalls echoReplies (by decide) serves_echo 1 _ rfl
  cases hreply
  exact ⟨before, after, hbefore, hrequest, hunread⟩

end ClusterController.JsonRpc
