import Mathlib.Data.List.Basic

/-!
# UTF-8 texts as byte lists

A byte list is valid when it encodes some characters. An ASCII byte stands for
itself and occurs in no longer encoding, so texts may be cut there, and a rewriting
that leaves the other bytes alone neither makes nor breaks validity.
-/

namespace Lib.Utf8

def Valid (s : List UInt8) : Prop := ∃ cs : List Char, cs.flatMap String.utf8EncodeChar = s

def Ascii (b : UInt8) : Prop := b < 128

instance (b : UInt8) : Decidable (Ascii b) := inferInstanceAs (Decidable (b < 128))

variable {s t : List UInt8} {b : UInt8}

theorem ofNat_not_ascii {n : Nat} (hlo : 128 ≤ n) (hhi : n < 256) : ¬ Ascii (UInt8.ofNat n) := by
  intro h
  have hlt : (UInt8.ofNat n).toNat < 128 := h
  rw [UInt8.toNat_ofNat', Nat.mod_eq_of_lt hhi] at hlt
  omega

/-- A character is one ASCII byte, or several bytes that are not. -/
theorem utf8EncodeChar_cases (c : Char) :
    (∃ b, Ascii b ∧ String.utf8EncodeChar c = [b]) ∨
      ∀ b ∈ String.utf8EncodeChar c, ¬ Ascii b := by
  unfold String.utf8EncodeChar
  extract_lets v
  split
  · next h =>
    refine .inl ⟨UInt8.ofNat v, ?_, rfl⟩
    show (UInt8.ofNat v).toNat < 128
    rw [UInt8.toNat_ofNat']
    omega
  · split
    · right
      simp only [List.mem_cons, List.not_mem_nil, or_false, forall_eq_or_imp, forall_eq]
      exact ⟨ofNat_not_ascii (by omega) (by omega), ofNat_not_ascii (by omega) (by omega)⟩
    · split
      · right
        simp only [List.mem_cons, List.not_mem_nil, or_false, forall_eq_or_imp, forall_eq]
        exact ⟨ofNat_not_ascii (by omega) (by omega), ofNat_not_ascii (by omega) (by omega),
          ofNat_not_ascii (by omega) (by omega)⟩
      · right
        simp only [List.mem_cons, List.not_mem_nil, or_false, forall_eq_or_imp, forall_eq]
        exact ⟨ofNat_not_ascii (by omega) (by omega), ofNat_not_ascii (by omega) (by omega),
          ofNat_not_ascii (by omega) (by omega), ofNat_not_ascii (by omega) (by omega)⟩

theorem utf8EncodeChar_ascii (h : Ascii b) :
    String.utf8EncodeChar (Char.ofNat b.toNat) = [b] := by
  have hlt : b.toNat < 128 := h
  have hvalid : (Char.ofNat b.toNat).val.toNat = b.toNat := by
    rw [Char.ofNat, dif_pos (Or.inl (by omega))]
    rfl
  unfold String.utf8EncodeChar
  simp only [hvalid]
  rw [if_pos (by omega), UInt8.ofNat_toNat]

/-! ## Joining and cutting -/

theorem valid_nil : Valid [] := ⟨[], rfl⟩

theorem Valid.append (hs : Valid s) (ht : Valid t) : Valid (s ++ t) := by
  obtain ⟨cs, rfl⟩ := hs
  obtain ⟨ds, rfl⟩ := ht
  exact ⟨cs ++ ds, List.flatMap_append⟩

theorem valid_of_ascii (h : ∀ b ∈ s, Ascii b) : Valid s := by
  induction s with
  | nil => exact valid_nil
  | cons b s ih =>
    obtain ⟨hb, hs⟩ := List.forall_mem_cons.mp h
    exact Valid.append (s := [b]) ⟨[Char.ofNat b.toNat], by simp [utf8EncodeChar_ascii hb]⟩ (ih hs)

/-- The same for a test that can be run. -/
theorem valid_of_all (h : s.all (· < 128) = true) : Valid s :=
  valid_of_ascii fun b hb => of_decide_eq_true (List.all_eq_true.mp h b hb)

theorem Valid.of_append_ascii (hb : Ascii b) (h : Valid (s ++ b :: t)) : Valid s ∧ Valid t := by
  obtain ⟨cs, hcs⟩ := h
  induction cs generalizing s with
  | nil => simp at hcs
  | cons c cs ih =>
    rw [List.flatMap_cons] at hcs
    rcases List.append_eq_append_iff.mp hcs with ⟨s', rfl, hrest⟩ | ⟨mid, hc, hrest⟩
    · obtain ⟨hs', ht⟩ := ih hrest
      exact ⟨Valid.append ⟨[c], by simp⟩ hs', ht⟩
    · cases mid with
      | nil =>
        have hc' : String.utf8EncodeChar c = s := by simpa using hc
        obtain ⟨-, ht⟩ := ih (s := []) hrest.symm
        exact ⟨⟨[c], by simp [hc']⟩, ht⟩
      | cons d mid =>
        obtain ⟨rfl, htail⟩ := List.cons.inj hrest
        rcases utf8EncodeChar_cases c with ⟨e, -, he⟩ | hnot
        · have hlen := congrArg List.length (he.symm.trans hc)
          simp only [List.length_append, List.length_cons, List.length_nil] at hlen
          obtain rfl := List.length_eq_zero_iff.mp (by omega : s.length = 0)
          obtain rfl := List.length_eq_zero_iff.mp (by omega : mid.length = 0)
          exact ⟨valid_nil, ⟨cs, htail.symm⟩⟩
        · exact absurd hb (hnot b (by simp [hc]))

/-- A text may be cut at an ASCII byte. -/
theorem valid_append_ascii (hb : Ascii b) : Valid (s ++ b :: t) ↔ Valid s ∧ Valid t := by
  refine ⟨Valid.of_append_ascii hb, fun h => h.1.append ?_⟩
  exact Valid.append (s := [b]) (valid_of_ascii (by simpa using hb)) h.2

theorem valid_cons_ascii (hb : Ascii b) : Valid (b :: t) ↔ Valid t := by
  have h := valid_append_ascii (s := []) (t := t) hb
  simpa [valid_nil] using h

theorem valid_concat_ascii (hb : Ascii b) : Valid (s ++ [b]) ↔ Valid s := by
  have h := valid_append_ascii (s := s) (t := []) hb
  simpa [valid_nil] using h

/-- Before a text that is empty or starts with an ASCII byte. -/
theorem valid_append (ht : ∀ b ∈ t.head?, Ascii b) : Valid (s ++ t) ↔ Valid s ∧ Valid t := by
  cases t with
  | nil => simp [valid_nil]
  | cons b t =>
    have hb : Ascii b := ht b rfl
    rw [valid_append_ascii hb, valid_cons_ascii hb]

theorem valid_ascii_append (h : ∀ b ∈ s, Ascii b) : Valid (s ++ t) ↔ Valid t := by
  induction s with
  | nil => rfl
  | cons b s ih =>
    obtain ⟨hb, hs⟩ := List.forall_mem_cons.mp h
    rw [List.cons_append, valid_cons_ascii hb, ih hs]

/-! ## Rewriting ASCII bytes -/

/-- A byte map that turns ASCII into ASCII and copies the rest keeps validity both ways. -/
theorem valid_flatMap {f : UInt8 → List UInt8} (hcopy : ∀ b, ¬ Ascii b → f b = [b])
    (hascii : ∀ b, Ascii b → f b ≠ [] ∧ ∀ c ∈ f b, Ascii c) :
    Valid (s.flatMap f) ↔ Valid s := by
  -- `p` holds the bytes since the last cut
  have hgen : ∀ p, Valid (p ++ s.flatMap f) ↔ Valid (p ++ s) := by
    induction s with
    | nil => exact fun p => Iff.rfl
    | cons b s ih =>
      intro p
      by_cases hb : Ascii b
      · obtain ⟨hne, hall⟩ := hascii b hb
        obtain ⟨c, cs, hf⟩ := List.exists_cons_of_ne_nil hne
        rw [hf, List.forall_mem_cons] at hall
        rw [List.flatMap_cons, hf, List.cons_append, valid_append_ascii hall.1,
          valid_ascii_append hall.2, valid_append_ascii hb]
        have hrest := ih []
        rw [List.nil_append, List.nil_append] at hrest
        rw [hrest]
      · have hrest := ih (p ++ [b])
        rw [List.flatMap_cons, hcopy b hb]
        simpa using hrest
  exact hgen []

/-- The bytes from 248 on occur in no text. -/
theorem not_valid_of_mem (hb : 248 ≤ b.toNat) (h : b ∈ s) : ¬ Valid s := by
  rintro ⟨cs, rfl⟩
  obtain ⟨c, -, hc⟩ := List.mem_flatMap.mp h
  unfold String.utf8EncodeChar at hc
  extract_lets v at hc
  have hsmall : ∀ n, n < 248 → b ≠ UInt8.ofNat n := by
    rintro n hn rfl
    rw [UInt8.toNat_ofNat'] at hb
    omega
  split at hc
  · exact hsmall v (by omega) (by simpa using hc)
  · split at hc
    · simp only [List.mem_cons, List.not_mem_nil, or_false] at hc
      rcases hc with hc | hc
      · exact hsmall _ (by omega) hc
      · exact hsmall _ (by omega) hc
    · split at hc
      · simp only [List.mem_cons, List.not_mem_nil, or_false] at hc
        rcases hc with hc | hc | hc
        · exact hsmall _ (by omega) hc
        · exact hsmall _ (by omega) hc
        · exact hsmall _ (by omega) hc
      · simp only [List.mem_cons, List.not_mem_nil, or_false] at hc
        rcases hc with hc | hc | hc | hc
        · exact hsmall _ (by omega) hc
        · exact hsmall _ (by omega) hc
        · exact hsmall _ (by omega) hc
        · exact hsmall _ (by omega) hc

/-- The check of the library. -/
theorem validateUTF8_iff (s : List UInt8) : (ByteArray.mk s.toArray).validateUTF8 = true ↔ Valid s := by
  have hbytes : ByteArray.mk s.toArray = s.toByteArray := ByteArray.ext List.data_toByteArray.symm
  rw [hbytes, ByteArray.validateUTF8_eq_true_iff]
  constructor
  · rintro ⟨cs, hcs⟩
    exact ⟨cs, (List.toByteArray_inj.mp hcs).symm⟩
  · rintro ⟨cs, rfl⟩
    exact ⟨cs, rfl⟩

instance (s : List UInt8) : Decidable (Valid s) := decidable_of_iff _ (validateUTF8_iff s)

end Lib.Utf8
