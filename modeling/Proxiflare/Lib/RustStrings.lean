import Proxiflare.Lib.CString

/-!
# Raw strings of Rust

`r`, at most 255 hashes, and a text between quotes that the same number of hashes follows: the
text ends at the first quote with as many hashes behind it. A line may end in CR LF, which is
read as LF; any other carriage return has no place in a raw string.
-/

namespace Lib.RustStrings

open Lib.CString

/-- The source as the lexer sees it. -/
def crlfToLf : CStr → CStr
  | 13 :: 10 :: s => 10 :: crlfToLf s
  | c :: s => c :: crlfToLf s
  | [] => []

/-- The text up to the closer, and what is left of the source. -/
def rawContent (closer : CStr) : CStr → Option (CStr × CStr)
  | [] => none
  | c :: s =>
    if closer <+: c :: s then some ([], (c :: s).drop closer.length)
    else if c = 13 then none
    else (rawContent closer s).map fun r => (c :: r.1, r.2)

/-- The compiler refuses a literal with more. -/
def maxHashes : Nat := 255

/-- The value of the raw string a source starts with, and what is left. -/
def rawString (source : CStr) : Option (CStr × CStr) :=
  match crlfToLf source with
  | 114 :: s =>
    let hashes := s.takeWhile (· = 35)
    match s.dropWhile (· = 35) with
    | 34 :: t => if hashes.length ≤ maxHashes then rawContent (34 :: hashes) t else none
    | _ => none
  | _ => none

theorem crlfToLf_eq_self {s : CStr} (h : 13 ∉ s) : crlfToLf s = s := by
  induction s using crlfToLf.induct with
  | case1 s ih => exact absurd List.mem_cons_self h
  | case2 c s hne ih =>
    rw [crlfToLf.eq_2 _ _ hne, ih fun hs => h (List.mem_cons_of_mem c hs)]
  | case3 => rfl

/-- A closer that starts with a byte it does not hold again is not found across its own start. -/
theorem rawContent_append {q : UInt8} {tail s : CStr} (hq : q ∉ tail) (hin : ¬ q :: tail <:+: s)
    (hreturn : 13 ∉ s) (rest : CStr) :
    rawContent (q :: tail) (s ++ (q :: tail ++ rest)) = some (s, rest) := by
  induction s with
  | nil =>
    have hpre : q :: tail <+: q :: (tail ++ rest) := List.prefix_append (q :: tail) rest
    rw [List.nil_append, List.cons_append, rawContent, if_pos hpre, ← List.cons_append,
      List.drop_left]
  | cons c s ih =>
    have hnot : ¬ q :: tail <+: c :: (s ++ (q :: tail ++ rest)) := by
      rintro hpre
      obtain ⟨rfl, htail⟩ := List.cons_prefix_cons.mp hpre
      have hkept : tail <+: s := prefix_of_prefix_append_sep hq htail
      exact hin (List.cons_prefix_cons.mpr ⟨rfl, hkept⟩).isInfix
    rw [List.mem_cons, not_or] at hreturn
    rw [List.cons_append, rawContent, if_neg hnot, if_neg (Ne.symm hreturn.1),
      ih (fun h => hin (h.trans (List.suffix_cons c s).isInfix)) hreturn.2]
    rfl

/-- What the lexer makes of some hashes and a quote. -/
theorem rawString_quote (hashes : Nat) {t : CStr} (hreturn : 13 ∉ t) :
    rawString (114 :: (List.replicate hashes 35 ++ 34 :: t)) =
      if hashes ≤ maxHashes then rawContent (34 :: List.replicate hashes 35) t else none := by
  have hhash : ∀ c ∈ List.replicate hashes (35 : UInt8), decide (c = 35) = true :=
    fun c hc => decide_eq_true (List.eq_of_mem_replicate hc)
  have hsource : 13 ∉ 114 :: (List.replicate hashes 35 ++ 34 :: t) := by
    simp [hreturn, List.mem_replicate]
  have hopen : List.takeWhile (fun c => decide (c = 35)) (34 :: t : CStr) = [] := rfl
  rw [rawString, crlfToLf_eq_self hsource]
  simp only [List.dropWhile_append_of_pos hhash, List.takeWhile_append_of_pos hhash]
  rw [hopen, List.append_nil, List.length_replicate]
  rfl

/-- A text between such closers is read back, whatever follows. -/
theorem rawString_append {s : CStr} {hashes : Nat} (hfew : hashes ≤ maxHashes)
    (hin : ¬ 34 :: List.replicate hashes 35 <:+: s) (hreturn : 13 ∉ s) {rest : CStr}
    (hrest : 13 ∉ rest) :
    rawString (114 :: (List.replicate hashes 35 ++ 34 :: (s ++ (34 :: List.replicate hashes 35 ++
      rest)))) = some (s, rest) := by
  have hquote : 34 ∉ List.replicate hashes (35 : UInt8) := by simp [List.mem_replicate]
  rw [rawString_quote hashes (by simp [hreturn, hrest, List.mem_replicate]), if_pos hfew]
  exact rawContent_append hquote hin hreturn rest

end Lib.RustStrings
