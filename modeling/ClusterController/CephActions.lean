import ClusterController.Northbound

/-!
# What the functions of `shared::ceph` do

A pool listing comes back as it was, and the removal of an image leaves none of its name.
-/

namespace ClusterController

open Interaction (Program)
open Interaction.Program (Outcome After ends_bind after_ret after_fail after_abort after_call)

/-! ## Pool listings -/

/-- What librbd takes for the name of an image: a C string that is not empty. -/
def IsCString (name : String) : Prop := name ≠ "" ∧ 0 ∉ name.toUTF8.toList

/-- All images have such names. -/
def CephState.Named (c : CephState) : Prop := ∀ pool, ∀ i ∈ c.pools pool, IsCString i.name

theorem toListLoop_eq (bs : ByteArray) (i : Nat) (r : List UInt8) :
    ByteArray.toList.loop bs i r = r.reverse ++ bs.data.toList.drop i := by
  induction i, r using ByteArray.toList.loop.induct bs with
  | case1 i r h ih =>
    unfold ByteArray.toList.loop
    have hl : i < bs.data.toList.length := by simpa using h
    have hb : bs.get! i = bs.data.toList[i] := by
      simp [ByteArray.get!, getElem!_pos, h]
    rw [if_pos h, ih, List.drop_eq_getElem_cons hl, hb]
    simp
  | case2 i r h =>
    unfold ByteArray.toList.loop
    rw [if_neg h, List.drop_eq_nil_of_le, List.append_nil]
    simpa using h

theorem toList_bytes (bs : ByteArray) : bs.toList = bs.data.toList := by
  unfold ByteArray.toList
  rw [toListLoop_eq]
  rfl

/-- The only character with a zero byte is NUL. -/
theorem zero_mem_utf8EncodeChar {c : Char} : 0 ∈ String.utf8EncodeChar c ↔ c = '\x00' := by
  have hzero : ∀ n : Nat, (0 : UInt8) = UInt8.ofNat n ↔ n % 256 = 0 := by
    intro n
    rw [← UInt8.toNat_inj, UInt8.toNat_ofNat']
    exact eq_comm
  have hc : c = '\x00' ↔ c.val.toNat = 0 := by
    rw [Char.ext_iff, ← UInt32.toNat_inj]
    exact Iff.rfl
  rw [hc]
  unfold String.utf8EncodeChar
  dsimp only
  split
  · simp only [List.mem_singleton, hzero]
    omega
  · split
    · simp only [List.mem_cons, List.not_mem_nil, or_false, hzero]
      omega
    · split
      · simp only [List.mem_cons, List.not_mem_nil, or_false, hzero]
        omega
      · simp only [List.mem_cons, List.not_mem_nil, or_false, hzero]
        omega

theorem nulFree_iff {text : String} : NulFree text ↔ '\x00' ∉ text.toList := by
  have hbytes : text.toUTF8.toList = text.toList.flatMap String.utf8EncodeChar := by
    rw [toList_bytes, String.toUTF8_eq_toByteArray, ← String.utf8Encode_toList]
    simp [List.utf8Encode]
  unfold NulFree
  rw [hbytes, List.mem_flatMap]
  refine not_congr ⟨?_, fun h => ⟨_, h, zero_mem_utf8EncodeChar.mpr rfl⟩⟩
  rintro ⟨c, hc, hzero⟩
  rwa [zero_mem_utf8EncodeChar.mp hzero] at hc

theorem nulFree_append {a b : String} : NulFree (a ++ b) ↔ NulFree a ∧ NulFree b := by
  simp only [nulFree_iff, String.toList_append, List.mem_append, not_or]

/-- The name of an image that is there can be passed to librbd. -/
theorem nulFree_of_mem {images : List RbdImage} {name : String} (hn : ∀ i ∈ images, IsCString i.name)
    (h : name ∈ images.map RbdImage.name) : NulFree name := by
  obtain ⟨i, hi, rfl⟩ := List.mem_map.mp h
  exact (hn i hi).2

/-- The snapshot that templates are cloned from -/
theorem nulFree_default : NulFree "default" := by decide +kernel

/-- The bytes of a text are read as the text. -/
theorem stringFromUtf8_toUTF8 (s : String) : Ceph.stringFromUtf8 s.toUTF8.toList = some s := by
  unfold Ceph.stringFromUtf8 String.fromUTF8?
  have h : (⟨s.toUTF8.data.toList.toArray⟩ : ByteArray) = s.toByteArray := by simp
  rw [toList_bytes, h, dif_pos s.isValidUTF8]
  rfl

theorem IsCString.toUTF8_ne_nil {name : String} (h : IsCString name) : name.toUTF8.toList ≠ [] := by
  intro hnil
  have hs := stringFromUtf8_toUTF8 name
  rw [hnil] at hs
  exact h.1 (Option.some.inj hs).symm

/-- Zeros hold no item. -/
theorem decodeItems_zeros (n : Nat) :
    Ceph.decodeItems ((List.replicate n (0 : UInt8)).splitOn 0) = .ok [] := by
  cases n with
  | zero => rfl
  | succ n =>
    rw [List.replicate_succ, List.splitOn_cons_eq_if_modifyHead]
    rfl

/-- The name of an image in a listing. -/
abbrev nameBytes (i : RbdImage) : List UInt8 := i.name.toUTF8.toList ++ [0]

/-- The names in a buffer, up to the zeros that fill it. -/
theorem nullSeparatedToVec_names {images : List RbdImage} (h : ∀ i ∈ images, IsCString i.name)
    (n : Nat) :
    Ceph.nullSeparatedToVec (images.flatMap nameBytes ++ List.replicate n 0) = .ok (images.map RbdImage.name) := by
  induction images with
  | nil => exact decodeItems_zeros n
  | cons i is ih =>
    have hi := h i List.mem_cons_self
    have hsplit : ((i :: is).flatMap nameBytes ++ List.replicate n 0).splitOn 0 =
        i.name.toUTF8.toList :: (is.flatMap nameBytes ++ List.replicate n 0).splitOn 0 := by
      rw [List.flatMap_cons, List.append_assoc, List.append_assoc, List.singleton_append,
        List.splitOn_append_cons_self, List.splitOn_eq_singleton hi.2, List.singleton_append]
    unfold Ceph.nullSeparatedToVec at ih ⊢
    rw [hsplit]
    unfold Ceph.decodeItems
    rw [if_neg (by simpa using hi.toUTF8_ne_nil), stringFromUtf8_toUTF8,
      ih fun j hj => h j (List.mem_cons_of_mem _ hj)]
    rfl

/-- A listing is read as the names of the pool. -/
theorem nullSeparatedToVec_listBuffer {images : List RbdImage} {len : Nat} {buffer : List UInt8}
    (h : ∀ i ∈ images, IsCString i.name) (hb : listBuffer images len = some buffer) :
    Ceph.nullSeparatedToVec buffer = .ok (images.map RbdImage.name) := by
  unfold listBuffer at hb
  dsimp only at hb
  split at hb
  · cases hb
    exact nullSeparatedToVec_names h _
  · cases hb

namespace CephState

variable {c : CephState} {pool name : String}

theorem find?_eq_none : c.find? pool name = none ↔ name ∉ (c.pools pool).map RbdImage.name := by
  unfold find?
  simp

theorem isSome_find? : (c.find? pool name).isSome = true ↔
    name ∈ (c.pools pool).map RbdImage.name := by
  unfold find?
  simp

/-- A handle that was just opened is that of its pool. -/
theorem poolOf_opened : (c.opened (.pool pool)).poolOf c.next = some pool := by
  unfold poolOf opened
  rw [List.lookup_cons, beq_self_eq_true]

theorem find?_opened {h : CephHandle} : (c.opened h).find? pool name = c.find? pool name := rfl

/-- Without the images of a name there is none. -/
theorem find?_modify_filter :
    (c.modify pool fun images => images.filter (·.name ≠ name)).find? pool name = none := by
  rw [find?_eq_none]
  unfold modify
  simp

end CephState

/-- The state with other images and handles. -/
def World.setCeph (s : World) (c : CephState) : World := { s with ceph := c }

/-! ## Calls that succeed -/

section Calls

variable {w : Worker} {s : World} {α : Type} {post : Outcome Error α → World → Prop}
  {name : String}

theorem after_cephCall {q : CephRequest} {f : q.Answer → Prog α}
    (h : ∀ x a t, s.serveCeph x q = (.ok a, t) → After (answering Succeeded w) (f a) t post) :
    After (answering Succeeded w) (cephCall name q >>= f) s post := by
  refine after_call fun a t ha => ?_
  obtain ⟨⟨x, hx, hans⟩, v, rfl⟩ := ha
  have hd : x.deliver (.error x.code) s (s.serveCeph x q) = (.ok v, t) := Option.some.inj hans
  unfold Choice.deliver at hd
  rw [hx] at hd
  exact h x v t hd

/-- The function that removes an image of a pool if it exists. -/
theorem after_ensureRemoved {pool : String} {f : Unit → Prog α} (hn : s.ceph.Named)
    (h : ∀ c : CephState, c.find? pool name = none →
      After (answering Succeeded w) (f ()) (s.setCeph c) post) :
    After (answering Succeeded w) ((do
      let cluster ← Ceph.connect
      let p ← Ceph.getPool cluster pool
      let images ← Ceph.getImages p
      onlyIf (name ∈ images) (Ceph.removeImage p name)) >>= f) s post := by
  unfold Ceph.connect Ceph.getPool Ceph.getImages Ceph.removeImage
  simp only [Program.bind_assoc', Program.pure_eq, Program.ret_bind]
  refine after_cephCall fun x cluster s₁ h₁ => after_cephCall fun x _ s₂ h₂ =>
    after_cephCall fun x _ s₃ h₃ => after_cephCall fun x _ s₄ h₄ =>
    after_cephCall fun x p s₅ h₅ => after_cephCall fun x buffer s₆ h₆ => ?_
  cases h₁
  cases h₂
  cases h₃
  cases h₄
  cases h₅
  simp only [World.serveCeph, CephState.poolOf_opened] at h₆
  split at h₆
  · next b hb =>
    cases h₆
    rw [nullSeparatedToVec_listBuffer (hn pool) hb]
    show After _ (onlyIf (name ∈ (s.ceph.pools pool).map RbdImage.name) _ >>= f) _ post
    unfold onlyIf
    split
    · next hin =>
      rw [cStringNew_of_nulFree (nulFree_of_mem (hn pool) hin), Program.ret_bind]
      refine after_cephCall fun x _ s₇ h₇ => ?_
      simp only [World.serveCeph, CephState.poolOf_opened] at h₇
      split at h₇
      · cases h₇
        exact h _ CephState.find?_modify_filter
      · cases h₇
    · next habsent => exact h _ (CephState.find?_eq_none.mpr habsent)
  · cases h₆

end Calls

end ClusterController
