import Proxiflare.Lib.CString

/-!
# The JSON grammar over bytes

Texts without insignificant blanks. Bytes from 128 on are ordinary characters of a
string; whether they are UTF-8 is a question of its own. Escapes of surrogates,
which not every reader takes, are left out.
-/

namespace Lib.JsonText

open Lib.CString

def isHex (b : UInt8) : Bool := isDigit b || (97 ≤ b && b ≤ 102) || (65 ≤ b && b ≤ 70)

/-! ## Numbers -/

def Digits (s : CStr) : Prop := s ≠ [] ∧ ∀ b ∈ s, isDigit b = true

/-- No leading zero. -/
def IntPart (s : CStr) : Prop := Digits s ∧ (s.head? = some 48 → s = [48])

def Frac (s : CStr) : Prop := s = [] ∨ ∃ ds, Digits ds ∧ s = 46 :: ds

def Exp (s : CStr) : Prop :=
  s = [] ∨ ∃ e sign ds, e ∈ [101, 69] ∧ sign ∈ [[], [43], [45]] ∧ Digits ds ∧ s = e :: (sign ++ ds)

def Number (s : CStr) : Prop :=
  ∃ sign i f e, sign ∈ [[], [45]] ∧ IntPart i ∧ Frac f ∧ Exp e ∧ s = sign ++ i ++ f ++ e

/-! ## Values -/

/-- What may stand between the quotes of a string. -/
inductive Chars : CStr → Prop where
  | nil : Chars []
  | plain {b : UInt8} {s : CStr} (hb : 32 ≤ b ∧ b ≠ 34 ∧ b ≠ 92) (hs : Chars s) : Chars (b :: s)
  | escape {b : UInt8} {s : CStr} (hb : b ∈ [34, 92, 47, 98, 102, 110, 114, 116]) (hs : Chars s) :
      Chars (92 :: b :: s)
  | unicode {a b c d : UInt8} {s : CStr} (ha : isHex a = true ∧ a ≠ 100 ∧ a ≠ 68)
      (h : isHex b = true ∧ isHex c = true ∧ isHex d = true) (hs : Chars s) :
      Chars (92 :: 117 :: a :: b :: c :: d :: s)

def Str (s : CStr) : Prop := ∃ cs, Chars cs ∧ s = 34 :: cs ++ [34]

mutual

inductive Value : CStr → Prop where
  | null : Value (lit "null")
  | true : Value (lit "true")
  | false : Value (lit "false")
  | number {s : CStr} (h : Number s) : Value s
  | string {s : CStr} (h : Str s) : Value s
  | emptyArray : Value (lit "[]")
  | array {v vs : CStr} (hv : Value v) (hvs : Items vs) : Value (91 :: (v ++ vs ++ [93]))
  | emptyObject : Value (lit "\x7b\x7d")
  | object {k v ms : CStr} (hk : Str k) (hv : Value v) (hms : Members ms) :
      Value (123 :: (k ++ 58 :: (v ++ ms ++ [125])))

/-- The further elements of an array. -/
inductive Items : CStr → Prop where
  | nil : Items []
  | cons {v vs : CStr} (hv : Value v) (hvs : Items vs) : Items (44 :: (v ++ vs))

inductive Members : CStr → Prop where
  | nil : Members []
  | cons {k v ms : CStr} (hk : Str k) (hv : Value v) (hms : Members ms) :
      Members (44 :: (k ++ 58 :: (v ++ ms)))

end

/-! ## Number texts -/

theorem isDigit_lt {b : UInt8} (h : isDigit b = true) : b < 128 := by
  simp only [isDigit, Bool.and_eq_true, decide_eq_true_eq] at h
  have hle : b.toNat ≤ 57 := h.2
  show b.toNat < 128
  omega

theorem lt_of_all {s : CStr} (h : s.all (· < 128) = true) : ∀ b ∈ s, b < 128 :=
  fun b hb => of_decide_eq_true (List.all_eq_true.mp h b hb)

theorem Digits.lt {s : CStr} (h : Digits s) : ∀ b ∈ s, b < 128 :=
  fun b hb => isDigit_lt (h.2 b hb)

theorem Number.lt {s : CStr} (h : Number s) : ∀ b ∈ s, b < 128 := by
  obtain ⟨sign, i, f, e, hsign, hi, hf, he, rfl⟩ := h
  have hsign' : ∀ b ∈ sign, b < 128 := by
    simp only [List.mem_cons, List.not_mem_nil, or_false] at hsign
    rcases hsign with rfl | rfl
    · exact List.forall_mem_nil _
    · exact lt_of_all (by decide)
  have hf' : ∀ b ∈ f, b < 128 := by
    rcases hf with rfl | ⟨ds, hds, rfl⟩
    · exact List.forall_mem_nil _
    · exact List.forall_mem_cons.mpr ⟨by decide, hds.lt⟩
  have he' : ∀ b ∈ e, b < 128 := by
    rcases he with rfl | ⟨c, sg, ds, hc, hsg, hds, rfl⟩
    · exact List.forall_mem_nil _
    · have hc' : c < 128 := by
        simp only [List.mem_cons, List.not_mem_nil, or_false] at hc
        rcases hc with rfl | rfl <;> decide
      have hsg' : ∀ b ∈ sg, b < 128 := by
        simp only [List.mem_cons, List.not_mem_nil, or_false] at hsg
        rcases hsg with rfl | rfl | rfl
        · exact List.forall_mem_nil _
        · exact lt_of_all (by decide)
        · exact lt_of_all (by decide)
      exact List.forall_mem_cons.mpr ⟨hc', List.forall_mem_append.mpr ⟨hsg', hds.lt⟩⟩
  simp only [List.forall_mem_append]
  exact ⟨⟨⟨hsign', hi.1.lt⟩, hf'⟩, he'⟩

/-- `%d` of a natural number is a JSON number. -/
theorem number_decimal (n : Nat) : Number (decimal n) := by
  have hdigits : Digits (decimal n) := ⟨decimal_ne_nil n, fun _ => isDigit_of_mem_decimal⟩
  refine ⟨[], decimal n, [], [], by simp, ⟨hdigits, ?_⟩, .inl rfl, .inl rfl, by simp⟩
  intro hhead
  unfold decimal at hhead ⊢
  split at hhead
  · next hzero => rw [if_pos hzero]
  · next hne =>
    have hlast := Nat.getLast_digit_ne_zero 10 hne
    have hlt : (Nat.digits 10 n).getLast (Nat.digits_ne_nil_iff_ne_zero.mpr hne) < 10 :=
      Nat.digits_lt_base (by decide) (List.getLast_mem _)
    rw [List.head?_map, List.head?_reverse,
      List.getLast?_eq_getLast_of_ne_nil (Nat.digits_ne_nil_iff_ne_zero.mpr hne)] at hhead
    have htoNat := congrArg UInt8.toNat (Option.some.inj hhead)
    rw [UInt8.toNat_ofNat'] at htoNat
    have hval : (48 : UInt8).toNat = 48 := rfl
    omega

end Lib.JsonText
