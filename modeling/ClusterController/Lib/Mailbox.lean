import Mathlib

/-!
# A server behind a bounded channel

Clients put their queries into a channel, which has room for some messages only, each with a
channel of its own for the answer. One server takes the messages out and works on one at a time.
It stops when it fails on a query, and also when its answer finds no receiver. Clients can leave
at any time.

* `Sound.step`: whatever the order of steps is, the server does what the loop `Protocol.serve`
  does with the queries in the order in which they were sent, and every answer that a client has is
  the one to its own query.
* `work_lt`, `settled_of_quiet`: the server and the clients come to rest, and then no client still waits.
-/

namespace Mailbox

/-! ## Clients and the server -/

/-- A client waits for room in the channel or for its answer, or the answer lies in the channel of
the client. It has read the answer, found a channel closed, or left. -/
inductive Stage (A : Type) : Type
  | sending
  | waiting
  | answered (a : A)
  | received (a : A)
  | failed
  | gone

structure Client (Q A : Type) where
  query : Q
  stage : Stage A

/-- The server listens, or works for a client. It has stopped because of a failure, or, without
one, because an answer found no receiver. -/
inductive Server (D : Type) : Type
  | listening
  | working (i : Nat)
  | stopped (why : Option D)

/-- A query that the server has worked on in an environment, and whether its client still waited for
the answer. -/
structure Turn (Q E : Type) where
  client : Nat
  query : Q
  env : E
  waits : Bool

/-- The room in the channel, and what the server does with a query. -/
structure Protocol (Q A E D : Type) where
  capacity : Nat
  handle : Q → E → Except D A

/-- The clients, the messages in the channel, and the server. `sent` and `turns` record the past: who
has sent its query, and what the server has worked on. -/
structure State (Q A E D : Type) where
  clients : List (Client Q A)
  channel : List Nat
  server : Server D
  sent : List Nat
  turns : List (Turn Q E)

/-- What can happen. `ask` and `leave` are up to the clients. -/
inductive Event (Q E : Type) : Type
  | ask (q : Q)
  | send (i : Nat)
  | receive
  | respond (env : E)
  | deliver (i : Nat)
  | leave (i : Nat)

variable {Q A E D : Type}

namespace Stage

/-- The client has been told, or has gone. -/
def IsOver : Stage A → Prop
  | .received _ => True
  | .failed => True
  | .gone => True
  | _ => False

/-- The answer that the client has, or that lies in its channel. -/
def answer? : Stage A → Option A
  | .answered a => some a
  | .received a => some a
  | _ => none

/-- The client still waits for its answer. -/
def isWaiting : Stage A → Bool
  | .waiting => true
  | _ => false

/-- What is still to be done for the client. -/
def weight : Stage A → Nat
  | .sending => 6
  | .waiting => 3
  | .answered _ => 1
  | _ => 0

end Stage

namespace Server

/-- The client that the server works for. -/
def current : Server D → List Nat
  | .working i => [i]
  | _ => []

/-- Why the server has stopped. -/
def ended : Server D → Option (Option D)
  | .stopped why => some why
  | _ => none

end Server

namespace State

def initial : State Q A E D := ⟨[], [], .listening, [], []⟩

/-- A client gets on. -/
def setStage (s : State Q A E D) (i : Nat) (stage : Stage A) : State Q A E D :=
  { s with clients := s.clients.modify i fun c => { c with stage := stage } }

/-- The server stops, and its end of the channel goes. -/
def stop (s : State Q A E D) (why : Option D) : State Q A E D :=
  { s with server := .stopped why, channel := [] }

/-- What happens, if it can. -/
def step (P : Protocol Q A E D) (s : State Q A E D) : Event Q E → Option (State Q A E D)
  | .ask q => some { s with clients := s.clients ++ [⟨q, .sending⟩] }
  | .send i =>
    match s.clients[i]? with
    | some ⟨_, .sending⟩ =>
      if s.server.ended.isSome then some (s.setStage i .failed)
      else if s.channel.length < P.capacity then
        some { s.setStage i .waiting with channel := s.channel ++ [i], sent := s.sent ++ [i] }
      else none
    | _ => none
  | .receive =>
    match s.server, s.channel with
    | .listening, i :: rest => some { s with server := .working i, channel := rest }
    | _, _ => none
  | .respond env =>
    match s.server with
    | .working i =>
      match s.clients[i]? with
      | some c =>
        let s : State Q A E D := { s with turns := s.turns ++ [⟨i, c.query, env, c.stage.isWaiting⟩] }
        match P.handle c.query env with
        | .error d => some (s.stop (some d))
        | .ok a =>
          if c.stage.isWaiting then some { s.setStage i (.answered a) with server := .listening }
          else some (s.stop none)
      | none => none
    | _ => none
  | .deliver i =>
    match s.clients[i]? with
    | some ⟨_, .answered a⟩ => some (s.setStage i (.received a))
    | some ⟨_, .waiting⟩ => if s.server.ended.isSome then some (s.setStage i .failed) else none
    | _ => none
  | .leave i =>
    match s.clients[i]? with
    | some ⟨_, .sending⟩ => some (s.setStage i .gone)
    | some ⟨_, .waiting⟩ => some (s.setStage i .gone)
    | some ⟨_, .answered _⟩ => some (s.setStage i .gone)
    | _ => none

end State

/-- The loop of the server over the queries, one after the other: the answers that are sent, and why
it ends if it does. -/
def Protocol.serve (P : Protocol Q A E D) : List (Turn Q E) → List (Option A) × Option (Option D)
  | [] => ([], none)
  | turn :: turns =>
    match P.handle turn.query turn.env with
    | .error d => ([none], some (some d))
    | .ok a =>
      if turn.waits then
        let (answers, ended) := P.serve turns
        (some a :: answers, ended)
      else ([none], some none)

theorem serve_concat (P : Protocol Q A E D) {turns : List (Turn Q E)} {answers : List (Option A)}
    (h : P.serve turns = (answers, none)) (turn : Turn Q E) :
    P.serve (turns ++ [turn]) = (answers ++ (P.serve [turn]).1, (P.serve [turn]).2) := by
  induction turns generalizing answers with
  | nil =>
    cases h
    rfl
  | cons first turns ih =>
    rw [List.cons_append, Protocol.serve]
    rw [Protocol.serve] at h
    cases hh : P.handle first.query first.env with
    | error d =>
      rw [hh] at h
      cases h
    | ok a =>
      rw [hh] at h
      dsimp only at h ⊢
      split at h
      · next hw =>
        cases hs : P.serve turns with
        | mk rest ended =>
          rw [hs] at h
          obtain ⟨rfl, rfl⟩ := Prod.mk.inj h
          rw [if_pos hw, ih hs]
          rfl
      · cases h

theorem length_serve_singleton (P : Protocol Q A E D) (turn : Turn Q E) : (P.serve [turn]).1.length = 1 := by
  rw [Protocol.serve]
  cases P.handle turn.query turn.env with
  | error d => rfl
  | ok a => cases turn.waits <;> rfl

/-- A loop that has got to each of the queries sends their answers. -/
theorem getElem?_serve {P : Protocol Q A E D} {turns : List (Turn Q E)} {turn : Turn Q E} {a : A} {k : Nat}
    (hlen : (P.serve turns).1.length = turns.length) (hk : turns[k]? = some turn) (hw : turn.waits = true)
    (ha : P.handle turn.query turn.env = .ok a) : (P.serve turns).1[k]? = some (some a) := by
  induction turns generalizing k with
  | nil => cases hk
  | cons first turns ih =>
    rw [Protocol.serve] at hlen ⊢
    cases k with
    | zero =>
      obtain rfl := Option.some.inj hk
      rw [ha, hw]
      rfl
    | succ k =>
      -- an end at the first query leaves none after it
      have hend : turns.length ≠ 0 := fun h => by
        rw [List.eq_nil_of_length_eq_zero h] at hk
        cases hk
      cases hh : P.handle first.query first.env with
      | error d =>
        rw [hh] at hlen
        exact absurd (Nat.succ.inj hlen).symm hend
      | ok b =>
        rw [hh] at hlen
        dsimp only at hlen ⊢
        cases hfirst : first.waits with
        | false =>
          rw [hfirst] at hlen
          exact absurd (Nat.succ.inj hlen).symm hend
        | true =>
          rw [hfirst] at hlen
          exact ih (Nat.succ.inj hlen) hk

/-- The loop goes on as long as every query can be handled and its client waits for the answer. -/
theorem serve_goes_on_iff {P : Protocol Q A E D} {turns : List (Turn Q E)} : (P.serve turns).2 = none ↔
    ∀ turn ∈ turns, turn.waits = true ∧ ∃ a, P.handle turn.query turn.env = .ok a := by
  induction turns with
  | nil => simp [Protocol.serve]
  | cons turn turns ih =>
    rw [List.forall_mem_cons, ← ih, Protocol.serve]
    cases P.handle turn.query turn.env with
    | error d => simp
    | ok a => cases turn.waits <;> simp

/-! ## What happens in a step -/

/-- A step with all that it says about the state before. -/
inductive Moves (P : Protocol Q A E D) (s : State Q A E D) : Event Q E → State Q A E D → Prop
  | ask (q : Q) : Moves P s (.ask q) { s with clients := s.clients ++ [⟨q, .sending⟩] }
  | send {i : Nat} {q : Q} : s.clients[i]? = some ⟨q, .sending⟩ → s.server.ended = none →
      s.channel.length < P.capacity → Moves P s (.send i)
        { s.setStage i .waiting with channel := s.channel ++ [i], sent := s.sent ++ [i] }
  | refused {i : Nat} {q : Q} : s.clients[i]? = some ⟨q, .sending⟩ → s.server.ended ≠ none →
      Moves P s (.send i) (s.setStage i .failed)
  | receive {i : Nat} {rest : List Nat} : s.server = .listening → s.channel = i :: rest →
      Moves P s .receive { s with server := .working i, channel := rest }
  | answer {i : Nat} {q : Q} {env : E} {a : A} : s.server = .working i →
      s.clients[i]? = some ⟨q, .waiting⟩ → P.handle q env = .ok a → Moves P s (.respond env)
        { s.setStage i (.answered a) with
          server := .listening
          turns := s.turns ++ [⟨i, q, env, true⟩] }
  | unheard {i : Nat} {c : Client Q A} {env : E} {a : A} : s.server = .working i →
      s.clients[i]? = some c → c.stage.isWaiting = false → P.handle c.query env = .ok a →
      Moves P s (.respond env)
        (State.stop { s with turns := s.turns ++ [⟨i, c.query, env, false⟩] } none)
  | fail {i : Nat} {c : Client Q A} {env : E} {d : D} : s.server = .working i →
      s.clients[i]? = some c → P.handle c.query env = .error d → Moves P s (.respond env)
        (State.stop { s with turns := s.turns ++ [⟨i, c.query, env, c.stage.isWaiting⟩] } (some d))
  | read {i : Nat} {q : Q} {a : A} : s.clients[i]? = some ⟨q, .answered a⟩ →
      Moves P s (.deliver i) (s.setStage i (.received a))
  | cut {i : Nat} {q : Q} : s.clients[i]? = some ⟨q, .waiting⟩ → s.server.ended ≠ none →
      Moves P s (.deliver i) (s.setStage i .failed)
  | leave {i : Nat} {c : Client Q A} : s.clients[i]? = some c → ¬c.stage.IsOver →
      Moves P s (.leave i) (s.setStage i .gone)

section Steps

variable {P : Protocol Q A E D} {s t : State Q A E D} {e : Event Q E} {i j : Nat}

theorem moves_of_step (h : s.step P e = some t) : Moves P s e t := by
  cases e with
  | ask q =>
    cases h
    exact .ask q
  | send i =>
    simp only [State.step] at h
    split at h
    · next q hc =>
      split at h
      · next hend =>
        cases h
        exact .refused hc (Option.ne_none_iff_isSome.mpr hend)
      · next hend =>
        split at h
        · next hroom =>
          cases h
          exact .send hc (by simpa using hend) hroom
        · cases h
    · cases h
  | receive =>
    simp only [State.step] at h
    split at h
    · next i rest hserver hchannel =>
      cases h
      exact .receive hserver hchannel
    · cases h
  | respond env =>
    simp only [State.step] at h
    split at h
    · next i hserver =>
      split at h
      · next c hc =>
        split at h
        · next d hd =>
          cases h
          exact .fail hserver hc hd
        · next a ha =>
          split at h
          · next hw =>
            cases h
            obtain ⟨q, stage⟩ := c
            cases stage with
            | waiting => exact .answer hserver hc ha
            | _ => cases hw
          · next hw =>
            cases h
            have hf : c.stage.isWaiting = false := by simpa using hw
            rw [hf]
            exact .unheard hserver hc hf ha
      · cases h
    · cases h
  | deliver i =>
    simp only [State.step] at h
    split at h
    · next q a hc =>
      cases h
      exact .read hc
    · next q hc =>
      split at h
      · next hend =>
        cases h
        exact .cut hc (Option.ne_none_iff_isSome.mpr hend)
      · cases h
    · cases h
  | leave i =>
    simp only [State.step] at h
    split at h
    · next q hc =>
      cases h
      exact .leave hc id
    · next q hc =>
      cases h
      exact .leave hc id
    · next q a hc =>
      cases h
      exact .leave hc id
    · cases h

theorem getElem?_setStage {stage : Stage A} : (s.setStage i stage).clients[j]? =
    if i = j then (s.clients[j]?).map fun c => { c with stage := stage } else s.clients[j]? := by
  show (s.clients.modify i _)[j]? = _
  rw [List.getElem?_modify]
  split
  · rfl
  · exact Option.map_id'

/-- A client after the step of one. -/
theorem setStage_cases {stage : Stage A} {c : Client Q A} (h : (s.setStage i stage).clients[j]? = some c) :
    i ≠ j ∧ s.clients[j]? = some c ∨
      i = j ∧ ∃ c₀, s.clients[i]? = some c₀ ∧ c = { c₀ with stage := stage } := by
  rw [getElem?_setStage] at h
  split at h
  · next hij =>
    subst hij
    obtain ⟨c₀, hc₀, rfl⟩ := Option.map_eq_some_iff.mp h
    exact .inr ⟨rfl, c₀, hc₀, rfl⟩
  · next hij => exact .inl ⟨hij, h⟩

/-- A step of a client leaves the queries. -/
theorem query_setStage {c : Client Q A} (h : s.clients[j]? = some c) (i : Nat) (stage : Stage A) :
    ∃ c', (s.setStage i stage).clients[j]? = some c' ∧ c'.query = c.query := by
  rw [getElem?_setStage, h]
  split
  · exact ⟨_, rfl, rfl⟩
  · exact ⟨c, rfl, rfl⟩

theorem length_setStage {stage : Stage A} : (s.setStage i stage).clients.length = s.clients.length :=
  List.length_modify _ _ _

/-- The queries of clients do not change. -/
theorem Moves.query {c : Client Q A} (h : Moves P s e t) (hc : s.clients[i]? = some c) :
    ∃ c', t.clients[i]? = some c' ∧ c'.query = c.query := by
  cases h with
  | ask q => exact ⟨c, (List.getElem?_append_left (List.getElem?_eq_some_iff.mp hc).1).trans hc, rfl⟩
  | send | refused | answer | read | cut | leave => exact query_setStage hc _ _
  | receive | unheard | fail => exact ⟨c, hc, rfl⟩

theorem Moves.length (h : Moves P s e t) (hask : ∀ q, e ≠ .ask q) : t.clients.length = s.clients.length := by
  cases h with
  | ask q => exact absurd rfl (hask q)
  | send | refused | answer | read | cut | leave => exact length_setStage
  | receive | unheard | fail => rfl

/-! ## The invariant -/

/-- * `served`, `lengths`: the server has done what the loop does, and has ended if the loop ends
* `order`, `all`: the messages are worked on in the order in which they were sent, and while the server
  runs none is lost
* `waiting`: while the server runs, the query of a client that waits is with the server or in the channel
* `answers`: an answer is the one to the query of its client
* `failed`: no client is refused while the server runs -/
structure Sound (P : Protocol Q A E D) (s : State Q A E D) : Prop where
  served : (P.serve s.turns).2 = s.server.ended
  lengths : (P.serve s.turns).1.length = s.turns.length
  order : s.turns.map Turn.client ++ s.server.current ++ s.channel <+: s.sent
  all : s.server.ended = none → s.turns.map Turn.client ++ s.server.current ++ s.channel = s.sent
  nodup : s.sent.Nodup
  sending : ∀ i q, s.clients[i]? = some ⟨q, .sending⟩ → i ∉ s.sent
  known : ∀ i ∈ s.sent, i < s.clients.length
  waiting : s.server.ended = none → ∀ i q, s.clients[i]? = some ⟨q, .waiting⟩ →
    i ∈ s.server.current ++ s.channel
  queries : ∀ turn ∈ s.turns, ∃ c, s.clients[turn.client]? = some c ∧ c.query = turn.query
  answers : ∀ i c a, s.clients[i]? = some c → c.stage.answer? = some a →
    ∃ turn ∈ s.turns, turn.client = i ∧ turn.waits = true ∧ P.handle c.query turn.env = .ok a
  failed : s.server.ended = none → ∀ (i : Nat) (q : Q), s.clients[i]? ≠ some ⟨q, .failed⟩
  room : s.channel.length ≤ P.capacity

theorem sound_initial : Sound P (.initial : State Q A E D) where
  served := rfl
  lengths := rfl
  order := List.prefix_refl _
  all _ := rfl
  nodup := List.nodup_nil
  sending _ _ _ h := nomatch h
  known _ h := nomatch h
  waiting _ _ _ h := nomatch h
  queries _ h := nomatch h
  answers _ _ _ h := nomatch h
  failed _ _ _ h := nomatch h
  room := Nat.zero_le _

/-- A client gets on that does not wait any more. -/
theorem Sound.setStage {stage : Stage A} (hs : Sound P s) (hsending : stage ≠ .sending)
    (hwaiting : stage ≠ .waiting) (hfailed : stage = .failed → s.server.ended ≠ none)
    (hanswer : ∀ c a, s.clients[i]? = some c → stage.answer? = some a → c.stage.answer? = some a) :
    Sound P (s.setStage i stage) where
  served := hs.served
  lengths := hs.lengths
  order := hs.order
  all := hs.all
  nodup := hs.nodup
  sending j q h := by
    rcases setStage_cases h with ⟨-, h⟩ | ⟨-, c₀, -, hc⟩
    · exact hs.sending j q h
    · cases hc
      exact absurd rfl hsending
  known j hj := by
    rw [length_setStage]
    exact hs.known j hj
  waiting hend j q h := by
    rcases setStage_cases h with ⟨-, h⟩ | ⟨-, c₀, -, hc⟩
    · exact hs.waiting hend j q h
    · cases hc
      exact absurd rfl hwaiting
  queries turn hmem := by
    obtain ⟨c, hc, hq⟩ := hs.queries turn hmem
    obtain ⟨c', hc', hq'⟩ := query_setStage hc _ _
    exact ⟨c', hc', hq'.trans hq⟩
  answers j c a h ha := by
    rcases setStage_cases h with ⟨-, h⟩ | ⟨rfl, c₀, h₀, rfl⟩
    · exact hs.answers j c a h ha
    · exact hs.answers i c₀ a h₀ (hanswer c₀ a h₀ ha)
  failed hend j q h := by
    rcases setStage_cases h with ⟨-, h⟩ | ⟨-, c₀, -, hc⟩
    · exact hs.failed hend j q h
    · cases hc
      exact hfailed rfl hend
  room := hs.room

/-- A server that runs gets to the next query. -/
theorem Sound.lengths_concat (hs : Sound P s) (hrun : s.server.ended = none) (turn : Turn Q E) :
    (P.serve (s.turns ++ [turn])).1.length = (s.turns ++ [turn]).length := by
  rw [serve_concat P (Prod.ext rfl (hs.served.trans hrun)), List.length_append, List.length_append,
    hs.lengths, length_serve_singleton, List.length_singleton]

/-- The server stops after a turn that answers nobody. -/
theorem Sound.stop {c : Client Q A} {turn : Turn Q E} {why : Option D} (hs : Sound P s)
    (hserver : s.server = .working i) (hc : s.clients[i]? = some c) (hi : turn.client = i)
    (hq : turn.query = c.query) (hend : (P.serve [turn]).2 = some why) :
    Sound P (State.stop { s with turns := s.turns ++ [turn] } why) := by
  have hrun : s.server.ended = none := by rw [hserver]; rfl
  refine ⟨?_, hs.lengths_concat hrun turn, ?_, nofun, hs.nodup, hs.sending, hs.known, nofun, ?_, ?_, nofun,
    Nat.zero_le _⟩
  · have hserve := serve_concat P (Prod.ext rfl (hs.served.trans hrun)) turn
    exact (congrArg Prod.snd hserve).trans hend
  · have hall := hs.all hrun
    rw [hserver] at hall
    refine ⟨s.channel, ?_⟩
    rw [← hall, ← hi]
    show List.map Turn.client (s.turns ++ [turn]) ++ [] ++ [] ++ s.channel =
      s.turns.map Turn.client ++ [turn.client] ++ s.channel
    simp
  · intro turn' hmem
    rcases List.mem_append.mp hmem with hmem | hmem
    · exact hs.queries turn' hmem
    · rw [List.mem_singleton.mp hmem]
      exact ⟨c, hi ▸ hc, hq.symm⟩
  · intro j c' a h ha
    obtain ⟨turn', hmem, h'⟩ := hs.answers j c' a h ha
    exact ⟨turn', List.mem_append_left _ hmem, h'⟩

theorem Sound.step (hs : Sound P s) (h : Moves P s e t) : Sound P t := by
  cases h with
  | ask q =>
    have hold : ∀ {j : Nat} {c : Client Q A}, (s.clients ++ [⟨q, .sending⟩])[j]? = some c →
        s.clients[j]? = some c ∨ j = s.clients.length ∧ c = ⟨q, .sending⟩ := by
      intro j c h
      rw [List.getElem?_append] at h
      split at h
      · exact .inl h
      · next hj =>
        obtain ⟨hzero, hval⟩ := List.getElem?_eq_some_iff.mp h
        have hlen : j - s.clients.length = 0 := by simpa using hzero
        refine .inr ⟨by omega, ?_⟩
        simpa [hlen] using hval.symm
    refine ⟨hs.served, hs.lengths, hs.order, hs.all, hs.nodup, fun j q' h => ?_, fun j hj => ?_, fun hend j q' h => ?_,
      fun turn hmem => ?_, fun j c a h ha => ?_, fun hend j q' h => ?_, hs.room⟩
    · rcases hold h with h | ⟨rfl, -⟩
      · exact hs.sending j q' h
      · exact fun hin => absurd (hs.known _ hin) (Nat.lt_irrefl _)
    · have hlt := hs.known j hj
      simp only [List.length_append, List.length_singleton]
      omega
    · rcases hold h with h | ⟨-, hc⟩
      · exact hs.waiting hend j q' h
      · cases hc
    · obtain ⟨c, hc, hq⟩ := hs.queries turn hmem
      refine ⟨c, ?_, hq⟩
      exact (List.getElem?_append_left (List.getElem?_eq_some_iff.mp hc).1).trans hc
    · rcases hold h with h | ⟨-, rfl⟩
      · exact hs.answers j c a h ha
      · cases ha
    · rcases hold h with h | ⟨-, hc⟩
      · exact hs.failed hend j q' h
      · cases hc
  | @send i q hc hrun hroom =>
    have hi : i ∉ s.sent := hs.sending i q hc
    have hall := hs.all hrun
    have hsent : s.turns.map Turn.client ++ s.server.current ++ (s.channel ++ [i]) = s.sent ++ [i] := by
      rw [← hall]
      simp
    refine ⟨hs.served, hs.lengths, ?_, fun _ => hsent, ?_, fun j q' h => ?_, fun j hj => ?_, fun hend j q' h => ?_,
      fun turn hmem => ?_, fun j c a h ha => ?_, fun hend j q' h => ?_, ?_⟩
    · exact hsent ▸ List.prefix_refl _
    · exact List.nodup_append.mpr ⟨hs.nodup, List.nodup_singleton i, fun j hj k hk hjk =>
        hi (List.mem_singleton.mp hk ▸ hjk ▸ hj)⟩
    · rcases setStage_cases h with ⟨hij, h⟩ | ⟨-, c₀, -, hc₀⟩
      · intro hin
        rcases List.mem_append.mp hin with hin | hin
        · exact hs.sending j q' h hin
        · exact hij (List.mem_singleton.mp hin).symm
      · cases hc₀
    · show j < (s.setStage i .waiting).clients.length
      rw [length_setStage]
      rcases List.mem_append.mp hj with hj | hj
      · exact hs.known j hj
      · rw [List.mem_singleton.mp hj]
        exact (List.getElem?_eq_some_iff.mp hc).1
    · show j ∈ s.server.current ++ (s.channel ++ [i])
      rw [← List.append_assoc]
      rcases setStage_cases h with ⟨-, h⟩ | ⟨rfl, -⟩
      · exact List.mem_append_left _ (hs.waiting hend j q' h)
      · exact List.mem_append_right _ (List.mem_singleton_self _)
    · obtain ⟨c, hc, hq⟩ := hs.queries turn hmem
      obtain ⟨c', hc', hq'⟩ := query_setStage hc i .waiting
      exact ⟨c', hc', hq'.trans hq⟩
    · rcases setStage_cases h with ⟨-, h⟩ | ⟨-, c₀, -, rfl⟩
      · exact hs.answers j c a h ha
      · cases ha
    · rcases setStage_cases h with ⟨-, h⟩ | ⟨-, c₀, -, hc₀⟩
      · exact hs.failed hend j q' h
      · cases hc₀
    · simp only [List.length_append, List.length_singleton]
      omega
  | refused hc hend => exact hs.setStage nofun nofun (fun _ => hend) nofun
  | @receive i rest hserver hchannel =>
    have horder := hs.order
    have hall := hs.all
    have hwaiting := hs.waiting
    have hroom := hs.room
    have hserved := hs.served
    rw [hserver, hchannel] at horder hall hwaiting
    rw [hserver] at hserved
    rw [hchannel] at hroom
    have hmove : s.turns.map Turn.client ++ [i] ++ rest =
        s.turns.map Turn.client ++ (Server.listening : Server D).current ++ i :: rest := by
      simp [Server.current]
    exact ⟨hserved, hs.lengths, hmove ▸ horder, fun h => hmove.trans (hall h), hs.nodup, hs.sending, hs.known,
      fun h j q hj => hwaiting h j q hj, hs.queries, hs.answers,
      fun _ => hs.failed (by rw [hserver]; rfl), Nat.le_of_succ_le hroom⟩
  | @answer i q env a hserver hc ha =>
    have hrun : s.server.ended = none := by rw [hserver]; rfl
    have hall := hs.all hrun
    have hwaiting := hs.waiting hrun
    rw [hserver] at hall hwaiting
    have hsent : List.map Turn.client (s.turns ++ [⟨i, q, env, true⟩]) ++ [] ++ s.channel = s.sent := by
      rw [← hall]
      simp [Server.current]
    refine ⟨?_, hs.lengths_concat hrun _, hsent ▸ List.prefix_refl _, fun _ => hsent, hs.nodup,
      fun j q' h => ?_, fun j hj => ?_, fun _ j q' h => ?_, fun turn hmem => ?_, fun j c a' h ha' => ?_,
      fun _ j q' h => ?_, hs.room⟩
    · have hserve := serve_concat P (Prod.ext rfl (hs.served.trans hrun))
        ⟨i, q, env, true⟩
      refine (congrArg Prod.snd hserve).trans ?_
      simp [Protocol.serve, ha, Server.ended]
    · rcases setStage_cases h with ⟨-, h⟩ | ⟨-, c₀, -, hc₀⟩
      · exact hs.sending j q' h
      · cases hc₀
    · show j < (s.setStage i _).clients.length
      rw [length_setStage]
      exact hs.known j hj
    · rcases setStage_cases h with ⟨hij, h⟩ | ⟨-, c₀, -, hc₀⟩
      · rcases List.mem_append.mp (hwaiting j q' h) with hin | hin
        · exact absurd (List.mem_singleton.mp hin).symm hij
        · exact hin
      · cases hc₀
    · rcases List.mem_append.mp hmem with hmem | hmem
      · obtain ⟨c, hc, hq⟩ := hs.queries turn hmem
        obtain ⟨c', hc', hq'⟩ := query_setStage hc i (.answered a)
        exact ⟨c', hc', hq'.trans hq⟩
      · rw [List.mem_singleton.mp hmem]
        exact query_setStage hc _ _
    · rcases setStage_cases h with ⟨-, h⟩ | ⟨rfl, c₀, h₀, rfl⟩
      · obtain ⟨turn, hmem, h'⟩ := hs.answers j c a' h ha'
        exact ⟨turn, List.mem_append_left _ hmem, h'⟩
      · cases ha'
        obtain rfl := Option.some.inj (h₀.symm.trans hc)
        exact ⟨⟨i, q, env, true⟩, List.mem_append_right _ (List.mem_singleton_self _), rfl, rfl, ha⟩
    · rcases setStage_cases h with ⟨-, h⟩ | ⟨-, c₀, -, hc₀⟩
      · exact hs.failed hrun j q' h
      · cases hc₀
  | unheard hserver hc hf ha =>
    refine hs.stop hserver hc rfl rfl ?_
    simp [Protocol.serve, ha]
  | fail hserver hc hd =>
    refine hs.stop hserver hc rfl rfl ?_
    simp [Protocol.serve, hd]
  | read hc =>
    refine hs.setStage nofun nofun nofun fun c a h ha => ?_
    obtain rfl := Option.some.inj (h.symm.trans hc)
    exact ha
  | cut hc hend => exact hs.setStage nofun nofun (fun _ => hend) nofun
  | leave hc hover => exact hs.setStage nofun nofun nofun nofun

/-- The answer of a client is one that the loop sends, when it gets to the client. -/
theorem Sound.answered {c : Client Q A} {a : A} (hs : Sound P s) (hc : s.clients[i]? = some c)
    (ha : c.stage.answer? = some a) :
    ∃ k : Nat, (s.turns.map Turn.client)[k]? = some i ∧ (P.serve s.turns).1[k]? = some (some a) := by
  obtain ⟨turn, hmem, rfl, hw, hhandle⟩ := hs.answers i c a hc ha
  obtain ⟨c', hc', hq⟩ := hs.queries turn hmem
  obtain rfl := Option.some.inj (hc.symm.trans hc')
  obtain ⟨k, hk⟩ := List.mem_iff_getElem?.mp hmem
  refine ⟨k, ?_, getElem?_serve hs.lengths hk hw (hq ▸ hhandle)⟩
  rw [List.getElem?_map, hk]
  rfl

/-! ## Coming to rest -/

/-- The service itself takes the step, not a client that comes or leaves. -/
def Event.IsOwn : Event Q E → Prop
  | .ask _ => False
  | .leave _ => False
  | _ => True

/-- Nothing can happen unless a client comes or leaves. -/
def Quiet (P : Protocol Q A E D) (s : State Q A E D) : Prop := ∀ e, e.IsOwn → s.step P e = none

/-- What is still to be done for the clients. -/
def State.remaining (s : State Q A E D) : Nat := (s.clients.map fun c => c.stage.weight).sum

/-- What is still to be done: each step of the service makes it less. -/
def State.work (s : State Q A E D) : Nat := s.remaining + 2 * s.channel.length + s.server.current.length

theorem weight_modify {l : List (Client Q A)} {c : Client Q A} {stage : Stage A} (h : l[i]? = some c) :
    ((l.modify i fun c => { c with stage := stage }).map fun c => c.stage.weight).sum + c.stage.weight =
      (l.map fun c => c.stage.weight).sum + stage.weight := by
  induction l generalizing i with
  | nil => cases h
  | cons first rest ih =>
    cases i with
    | zero =>
      cases h
      simp only [List.modify_zero_cons, List.map_cons, List.sum_cons]
      omega
    | succ i =>
      have h' := ih (i := i) (by simpa using h)
      simp only [List.modify_succ_cons, List.map_cons, List.sum_cons]
      omega

theorem work_lt (h : Moves P s e t) (he : e.IsOwn) : t.work < s.work := by
  have hmodify : ∀ {i : Nat} {c : Client Q A} {stage : Stage A} {m n : Nat}, s.clients[i]? = some c →
      c.stage.weight = m → stage.weight = n → (s.setStage i stage).remaining + m = s.remaining + n := by
    rintro i c stage _ _ hc rfl rfl
    exact weight_modify hc
  unfold State.work
  cases h with
  | ask q => exact he.elim
  | leave hc hover => exact he.elim
  | @send i q hc hrun hroom =>
    have h : (s.setStage i .waiting).remaining + 6 = s.remaining + 3 := hmodify hc rfl rfl
    show (s.setStage i .waiting).remaining + 2 * (s.channel ++ [i]).length + s.server.current.length < _
    rw [List.length_append, List.length_singleton]
    omega
  | @refused i q hc hend =>
    have h : (s.setStage i .failed).remaining + 6 = s.remaining + 0 := hmodify hc rfl rfl
    show (s.setStage i .failed).remaining + 2 * s.channel.length + s.server.current.length < _
    omega
  | @receive i rest hserver hchannel =>
    rw [hserver, hchannel]
    show s.remaining + 2 * rest.length + 1 < s.remaining + 2 * (rest.length + 1) + 0
    omega
  | @answer i q env a hserver hc ha =>
    have h : (s.setStage i (.answered a)).remaining + 3 = s.remaining + 1 := hmodify hc rfl rfl
    show (s.setStage i (.answered a)).remaining + 2 * s.channel.length + 0 < _
    omega
  | unheard hserver hc hf ha =>
    rw [hserver]
    show s.remaining + 2 * 0 + 0 < s.remaining + 2 * s.channel.length + 1
    omega
  | fail hserver hc hd =>
    rw [hserver]
    show s.remaining + 2 * 0 + 0 < s.remaining + 2 * s.channel.length + 1
    omega
  | @read i q a hc =>
    have h : (s.setStage i (.received a)).remaining + 1 = s.remaining + 0 := hmodify hc rfl rfl
    show (s.setStage i (.received a)).remaining + 2 * s.channel.length + s.server.current.length < _
    omega
  | @cut i q hc hend =>
    have h : (s.setStage i .failed).remaining + 3 = s.remaining + 0 := hmodify hc rfl rfl
    show (s.setStage i .failed).remaining + 2 * s.channel.length + s.server.current.length < _
    omega

/-- A server that runs and has a message can go on. -/
theorem Sound.not_quiet [Nonempty E] (hs : Sound P s) (hrun : s.server.ended = none)
    (hmsg : s.server.current ++ s.channel ≠ []) : ¬Quiet P s := by
  intro hq
  cases hserver : s.server with
  | listening =>
    rw [hserver] at hmsg
    obtain ⟨i, rest, hchannel⟩ := List.exists_cons_of_ne_nil hmsg
    have hchannel : s.channel = i :: rest := hchannel
    have h := hq .receive trivial
    simp only [State.step, hserver, hchannel] at h
    cases h
  | working i =>
    obtain ⟨env⟩ := ‹Nonempty E›
    have hall := hs.all hrun
    rw [hserver] at hall
    have hi : i ∈ s.sent := by
      rw [← hall]
      simp [Server.current]
    have h := hq (.respond env) trivial
    simp only [State.step, hserver, List.getElem?_eq_getElem (hs.known i hi)] at h
    split at h
    · cases h
    · split at h <;> cases h
  | stopped why =>
    rw [hserver] at hrun
    cases hrun

/-- When the service rests, nobody waits: each client has its answer, has been told that there is
none, or has left. -/
theorem settled_of_quiet [Nonempty E] (hs : Sound P s) (hroom : 0 < P.capacity) (hq : Quiet P s) {i : Nat}
    {c : Client Q A} (hc : s.clients[i]? = some c) : c.stage.IsOver := by
  obtain ⟨q, stage⟩ := c
  cases stage with
  | received a => trivial
  | failed => trivial
  | gone => trivial
  | answered a =>
    have h := hq (.deliver i) trivial
    simp only [State.step, hc] at h
    cases h
  | waiting =>
    cases hend : s.server.ended with
    | some why =>
      have h := hq (.deliver i) trivial
      simp only [State.step, hc, hend] at h
      cases h
    | none =>
      have hin := hs.waiting hend i q hc
      exact absurd hq (hs.not_quiet hend (List.ne_nil_of_mem hin))
  | sending =>
    have h := hq (.send i) trivial
    cases hend : s.server.ended with
    | some why =>
      simp only [State.step, hc, hend] at h
      cases h
    | none =>
      simp only [State.step, hc, hend, Option.isSome_none, Bool.false_eq_true, if_false] at h
      split at h
      · cases h
      · next hfull =>
        refine absurd hq (hs.not_quiet hend fun hnil => hfull ?_)
        rw [(List.append_eq_nil_iff.mp hnil).2]
        exact hroom

end Steps

end Mailbox
