import ClusterController.Panics

/-!
# Amounts of memory

`parse_memory` searches a text for the first digits that a unit follows, and panics where it finds
none. What it makes of a text that is an amount of memory, and of any other.
-/

namespace ClusterController

open Interaction.Program (Outcome)

namespace Host

/-! ## The grammar -/

/-- A decimal number of 64 bits and a unit, with optional blanks between them and around them. -/
inductive AmountText : String → UInt64 → String → Prop
  | mk {lead digits blanks letters trail : List Char} {amount : UInt64}
      (lead_blank : ∀ c ∈ lead, isSpace c = true)
      (digits_ne : digits ≠ []) (digits_ascii : ∀ c ∈ digits, '0' ≤ c ∧ c ≤ '9')
      (value : digitsValue digits = amount.toNat)
      (blanks_blank : ∀ c ∈ blanks, isSpace c = true)
      (letters_ne : letters ≠ []) (letters_letter : ∀ c ∈ letters, isLetter c = true)
      (trail_blank : ∀ c ∈ trail, isSpace c = true) :
      AmountText (String.ofList (lead ++ (digits ++ (blanks ++ (letters ++ trail))))) amount
        (String.ofList letters)

/-- What a caller of `parse_memory` sees. -/
def memoryOutcome (text : String) : Outcome Error (UInt64 × String) :=
  match parseMemory text with
  | .ok r => .ok r
  | .error m => .aborted m

/-- An amount is read, a result is read off the whole text, any other text is an error, and nothing is a
panic. -/
def ReadsExactly (text : String) : Prop :=
  (∀ amount unit, AmountText text amount unit → memoryOutcome text = .ok (amount, unit)) ∧
  (∀ amount unit, memoryOutcome text = .ok (amount, unit) → AmountText text amount unit) ∧
  ((∀ amount unit, ¬AmountText text amount unit) → ∃ e, memoryOutcome text = .err e) ∧
  ∀ m, memoryOutcome text ≠ .aborted m

/-! ## Classes of characters -/

section Characters

variable {c : Char}

theorem toNat_of_isDecimal (h : isDecimal c = true) :
    (48 ≤ c.toNat ∧ c.toNat < 58) ∨ 1632 ≤ c.toNat := by
  simp only [isDecimal, List.any_eq_true, Bool.and_eq_true, decide_eq_true_eq] at h
  obtain ⟨z, hz, hle, hlt⟩ := h
  have hzero : ∀ z ∈ decimalZeros, z = 48 ∨ 1632 ≤ z := by decide
  rcases hzero z hz with rfl | h
  · exact .inl ⟨hle, hlt⟩
  · exact .inr (h.trans hle)

theorem toNat_of_isLetter (h : isLetter c = true) : 65 ≤ c.toNat ∧ c.toNat < 123 := by
  simp only [isLetter, Bool.or_eq_true, Bool.and_eq_true, decide_eq_true_eq, Char.le_def,
    UInt32.le_iff_toNat_le] at h
  rcases h with ⟨h₁, h₂⟩ | ⟨h₁, h₂⟩
  · exact ⟨Nat.le_trans (by decide) h₁, Nat.lt_of_le_of_lt h₂ (by decide)⟩
  · exact ⟨Nat.le_trans (by decide) h₁, Nat.lt_of_le_of_lt h₂ (by decide)⟩

theorem isDecimal_of_ascii (h : '0' ≤ c ∧ c ≤ '9') : isDecimal c = true := by
  simp only [Char.le_def, UInt32.le_iff_toNat_le] at h
  have h₁ : 48 ≤ c.toNat := h.1
  have h₂ : c.toNat ≤ 57 := h.2
  simp only [isDecimal, List.any_eq_true, Bool.and_eq_true, decide_eq_true_eq]
  exact ⟨48, by decide, h₁, by omega⟩

theorem isSpace_iff : isSpace c = true ↔
    c.toNat ∈ [9, 10, 11, 12, 13, 32, 133, 160, 5760, 8232, 8233, 8239, 8287, 12288] ∨
      (8192 ≤ c.toNat ∧ c.toNat ≤ 8202) := by
  simp [isSpace]

theorem not_isDecimal_of_isSpace (h : isSpace c = true) : isDecimal c = false := by
  rw [Bool.eq_false_iff]
  intro hd
  simp only [isDecimal, List.any_eq_true, Bool.and_eq_true, decide_eq_true_eq] at hd
  obtain ⟨z, hz, hle, hlt⟩ := hd
  rcases isSpace_iff.mp h with hc | hc
  · have happart : ∀ n ∈ [9, 10, 11, 12, 13, 32, 133, 160, 5760, 8232, 8233, 8239, 8287, 12288],
        ∀ z ∈ decimalZeros, n < z ∨ z + 10 ≤ n := by decide +kernel
    have := happart _ hc z hz
    omega
  · have happart : ∀ z ∈ decimalZeros, 8202 < z ∨ z + 10 ≤ 8192 := by decide +kernel
    have := happart z hz
    omega

theorem not_isDecimal_of_isLetter (h : isLetter c = true) : isDecimal c = false := by
  rw [Bool.eq_false_iff]
  intro hd
  have hl := toNat_of_isLetter h
  have hd := toNat_of_isDecimal hd
  omega

theorem not_isSpace_of_isLetter (h : isLetter c = true) : isSpace c = false := by
  rw [Bool.eq_false_iff]
  intro hs
  have hl := toNat_of_isLetter h
  rcases isSpace_iff.mp hs with hc | hc
  · have happart : ∀ n ∈ [9, 10, 11, 12, 13, 32, 133, 160, 5760, 8232, 8233, 8239, 8287, 12288],
        n < 65 ∨ 123 ≤ n := by decide
    have := happart _ hc
    omega
  · omega

end Characters

/-! ## The search -/

/-- A run of characters of a class ends where one of another class follows. -/
theorem span_append {p : Char → Bool} {l rest : List Char} (hl : ∀ c ∈ l, p c = true)
    (hrest : ∀ c ∈ rest.head?, p c = false) :
    (l ++ rest).takeWhile p = l ∧ (l ++ rest).dropWhile p = rest := by
  have hstop : rest.takeWhile p = [] ∧ rest.dropWhile p = rest := by
    cases rest with
    | nil => exact ⟨rfl, rfl⟩
    | cons c cs =>
      have hc : p c = false := hrest c rfl
      exact ⟨by rw [List.takeWhile_cons, hc]; rfl, by rw [List.dropWhile_cons, hc]; rfl⟩
  constructor
  · rw [List.takeWhile_append_of_pos hl, hstop.1, List.append_nil]
  · rw [List.dropWhile_append_of_pos hl, hstop.2]

/-- Blanks before the digits are skipped. -/
theorem captureMemory_blanks {lead rest : List Char} (h : ∀ c ∈ lead, isSpace c = true) :
    captureMemory (lead ++ rest) = captureMemory rest := by
  induction lead with
  | nil => rfl
  | cons c cs ih =>
    have hc : isDecimal c = false := not_isDecimal_of_isSpace (h c List.mem_cons_self)
    rw [List.cons_append, captureMemory, List.takeWhile_cons, hc, if_neg (by simp)]
    exact ih fun d hd => h d (List.mem_cons_of_mem c hd)

theorem captureMemory_amount {digits blanks letters trail : List Char} (hne : digits ≠ [])
    (hdigits : ∀ c ∈ digits, isDecimal c = true) (hblanks : ∀ c ∈ blanks, isSpace c = true)
    (hletters : ∀ c ∈ letters, isLetter c = true) (hlettersne : letters ≠ [])
    (htrail : ∀ c ∈ trail, isSpace c = true) :
    captureMemory (digits ++ (blanks ++ (letters ++ trail))) = some (digits, letters) := by
  obtain ⟨d, ds, rfl⟩ := List.exists_cons_of_ne_nil hne
  obtain ⟨l, ls, rfl⟩ := List.exists_cons_of_ne_nil hlettersne
  have hl : isLetter l = true := hletters l List.mem_cons_self
  have hafter : ∀ c ∈ (blanks ++ (l :: ls ++ trail)).head?, isDecimal c = false := by
    intro c hc
    cases blanks with
    | nil =>
      cases hc
      exact not_isDecimal_of_isLetter hl
    | cons b bs =>
      cases hc
      exact not_isDecimal_of_isSpace (hblanks _ List.mem_cons_self)
  have hunit : ∀ c ∈ (l :: ls ++ trail).head?, isSpace c = false := by
    intro c hc
    cases hc
    exact not_isSpace_of_isLetter hl
  have hend : ∀ c ∈ trail.head?, isLetter c = false := by
    intro c hc
    have hs : isSpace c = true := htrail c (List.mem_of_mem_head? hc)
    rw [Bool.eq_false_iff]
    intro hc'
    rw [not_isSpace_of_isLetter hc'] at hs
    cases hs
  have hd := span_append hdigits hafter
  have hb := span_append hblanks hunit
  have hu := span_append hletters hend
  rw [List.cons_append] at hd ⊢
  unfold captureMemory
  dsimp only
  rw [hd.1, hd.2, hb.2, hu.1, if_pos ⟨hne, hlettersne⟩]

/-- An amount of memory is read as it stands. -/
theorem parseMemory_amount {text unit : String} {amount : UInt64} (h : AmountText text amount unit) :
    parseMemory text = .ok (amount, unit) := by
  cases h with
  | @mk lead digits blanks letters trail amount hlead hne hascii hvalue hblanks hlne hletters htrail =>
    have hcapture : captureMemory (lead ++ (digits ++ (blanks ++ (letters ++ trail)))) =
        some (digits, letters) := by
      rw [captureMemory_blanks hlead]
      exact captureMemory_amount hne (fun c hc => isDecimal_of_ascii (hascii c hc)) hblanks hletters
        hlne htrail
    have hall : (digits.all fun c => '0' ≤ c && c ≤ '9') = true := by
      simpa [List.all_eq_true] using hascii
    have hlt : digitsValue digits < 2 ^ 64 := by
      rw [hvalue]
      exact amount.toNat_lt
    have hparse : parseUsize digits = some amount := by
      unfold parseUsize
      change (if _ then if digitsValue digits < 2 ^ 64 then
        some (UInt64.ofNat (digitsValue digits)) else none else none) = _
      rw [if_pos hall, if_pos hlt, hvalue, UInt64.ofNat_toNat]
    unfold parseMemory
    rw [String.toList_ofList, hcapture]
    dsimp only
    rw [hparse]

theorem memoryOutcome_amount {text unit : String} {amount : UInt64} (h : AmountText text amount unit) :
    memoryOutcome text = .ok (amount, unit) := by
  unfold memoryOutcome
  rw [parseMemory_amount h]

/-- `parse_memory` reads its text exactly if and only if the text is an amount of memory. -/
theorem readsExactly_iff (text : String) :
    ReadsExactly text ↔ ∃ amount unit, AmountText text amount unit := by
  constructor
  · rintro ⟨-, hok, -, habort⟩
    cases hp : parseMemory text with
    | error m => exact absurd (by unfold memoryOutcome; rw [hp]) (habort m)
    | ok r =>
      obtain ⟨amount, unit⟩ := r
      exact ⟨amount, unit, hok amount unit (by unfold memoryOutcome; rw [hp])⟩
  · rintro ⟨amount, unit, h⟩
    have hout := memoryOutcome_amount h
    refine ⟨fun _ _ => memoryOutcome_amount, fun amount' unit' h' => ?_, fun hno => absurd h (hno amount unit),
      fun m hm => ?_⟩
    · rw [hout] at h'
      cases h'
      exact h
    · rw [hout] at hm
      cases hm

/-- An amount of memory has only blanks, ASCII digits and letters. -/
theorem AmountText.mem {text unit : String} {amount : UInt64} (h : AmountText text amount unit)
    {c : Char} (hc : c ∈ text.toList) :
    isSpace c = true ∨ ('0' ≤ c ∧ c ≤ '9') ∨ isLetter c = true := by
  cases h with
  | mk hlead _ hascii _ hblanks _ hletters htrail =>
    rw [String.toList_ofList] at hc
    simp only [List.mem_append] at hc
    rcases hc with hc | hc | hc | hc | hc
    · exact .inl (hlead c hc)
    · exact .inr (.inl (hascii c hc))
    · exact .inl (hblanks c hc)
    · exact .inr (.inr (hletters c hc))
    · exact .inl (htrail c hc)

/-- The whole part of a fraction is skipped. -/
theorem fraction_skipped : memoryOutcome "1.5 Gi" = .ok (5, "Gi") ∧ ¬ReadsExactly "1.5 Gi" := by
  have hout : memoryOutcome "1.5 Gi" = .ok (5, "Gi") := rfl
  refine ⟨hout, fun h => ?_⟩
  have hdot := (h.2.1 5 "Gi" hout).mem (c := '.') (by decide)
  revert hdot
  decide

end Host

end ClusterController
