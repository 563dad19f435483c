import Proxiflare.Daemon.Cjson
import Proxiflare.Lib.JsonText
import Proxiflare.Lib.Utf8

/-!
# What `cJSON_PrintUnformatted` prints

Always a JSON text, and one of valid UTF-8 exactly when all strings and keys of the
value are: bytes from 128 on are copied, all others become ASCII.
-/

namespace Proxiflare.Daemon.Cjson

open Lib.CString Lib.Utf8

variable {ν : Type} {printNumber : ν → CStr}

/-- What `print_number` writes: a number, or `null` for NaN and infinity. -/
def PrintsNumbers (printNumber : ν → CStr) : Prop :=
  ∀ n, Lib.JsonText.Number (printNumber n) ∨ printNumber n = lit "null"

/-! ## One byte of a string -/

/-- The shapes of `escapeByte`: the byte itself, a short escape, or `\u00XX`. -/
def escapedAs (c : UInt8) (s : CStr) : Bool :=
  (32 ≤ c && c ≠ 34 && c ≠ 92 && s = [c]) ||
    (c < 128 && ([34, 92, 47, 98, 102, 110, 114, 116] : CStr).any fun e => s = [92, e]) ||
    (c < 128 && Lib.JsonText.isHex (hexDigit (c / 16)) && Lib.JsonText.isHex (hexDigit (c % 16)) &&
      s = [92, 117, 48, 48, hexDigit (c / 16), hexDigit (c % 16)])

private theorem escapedAs_ofNat :
    ∀ n : Fin 256, escapedAs (UInt8.ofNat n) (escapeByte (UInt8.ofNat n)) = true := by
  decide +kernel

theorem escapeByte_spec (c : UInt8) :
    ((32 ≤ c ∧ c ≠ 34 ∧ c ≠ 92) ∧ escapeByte c = [c]) ∨
      (c < 128 ∧ ∃ e ∈ ([34, 92, 47, 98, 102, 110, 114, 116] : CStr), escapeByte c = [92, e]) ∨
      (c < 128 ∧ (Lib.JsonText.isHex (hexDigit (c / 16)) = true ∧
        Lib.JsonText.isHex (hexDigit (c % 16)) = true) ∧
        escapeByte c = [92, 117, 48, 48, hexDigit (c / 16), hexDigit (c % 16)]) := by
  have h := escapedAs_ofNat ⟨c.toNat, c.toNat_lt⟩
  rw [UInt8.ofNat_toNat] at h
  simpa only [escapedAs, Bool.or_eq_true, Bool.and_eq_true, decide_eq_true_eq, List.any_eq_true,
    and_assoc, or_assoc] using h

theorem escapeByte_of_not_ascii {c : UInt8} (h : ¬ Ascii c) : escapeByte c = [c] := by
  rcases escapeByte_spec c with ⟨-, hs⟩ | ⟨hc, -⟩ | ⟨hc, -⟩
  · exact hs
  · exact absurd hc h
  · exact absurd hc h

private theorem escapeByte_ascii_ofNat : ∀ n : Fin 128, escapeByte (UInt8.ofNat n) ≠ [] ∧
    (escapeByte (UInt8.ofNat n)).all (· < 128) = true := by
  decide +kernel

theorem escapeByte_ascii {c : UInt8} (h : Ascii c) :
    escapeByte c ≠ [] ∧ ∀ b ∈ escapeByte c, Ascii b := by
  have hofNat := escapeByte_ascii_ofNat ⟨c.toNat, h⟩
  rw [UInt8.ofNat_toNat] at hofNat
  exact ⟨hofNat.1, Lib.JsonText.lt_of_all hofNat.2⟩

/-! ## The text is JSON -/

theorem chars_escapeByte (c : UInt8) {s : CStr} (hs : Lib.JsonText.Chars s) :
    Lib.JsonText.Chars (escapeByte c ++ s) := by
  rcases escapeByte_spec c with ⟨hplain, heq⟩ | ⟨-, e, he, heq⟩ | ⟨-, hhex, heq⟩
  · rw [heq]
    exact .plain hplain hs
  · rw [heq]
    exact .escape he hs
  · rw [heq]
    exact .unicode (by decide) ⟨by decide, hhex⟩ hs

theorem str_printString (s : CStr) : Lib.JsonText.Str (printString s) := by
  refine ⟨(cstr s).flatMap escapeByte, ?_, rfl⟩
  induction cstr s with
  | nil => exact .nil
  | cons c s ih => exact chars_escapeByte c ih

mutual

theorem value_print (h : PrintsNumbers printNumber) :
    ∀ v, Lib.JsonText.Value (print printNumber v)
  | .null => .null
  | .bool true => .true
  | .bool false => .false
  | .num n => by
    rcases h n with hnum | hnull
    · exact .number hnum
    · rw [print, hnull]
      exact .null
  | .str s => .string (str_printString s)
  | .arr [] => .emptyArray
  | .arr (v :: rest) => .array (value_print h v) (items_printItems h rest)
  | .obj [] => .emptyObject
  | .obj ((k, v) :: rest) =>
    .object (str_printString k) (value_print h v) (members_printMembers h rest)

theorem items_printItems (h : PrintsNumbers printNumber) :
    ∀ vs, Lib.JsonText.Items (printItems printNumber vs)
  | [] => .nil
  | v :: rest => .cons (value_print h v) (items_printItems h rest)

theorem members_printMembers (h : PrintsNumbers printNumber) :
    ∀ ms, Lib.JsonText.Members (printMembers printNumber ms)
  | [] => .nil
  | (k, v) :: rest =>
    .cons (str_printString k) (value_print h v) (members_printMembers h rest)

end

/-! ## Its UTF-8 is that of the strings -/

mutual

/-- The strings and keys of a value, as C reads them. -/
def texts : Cjson ν → List CStr
  | .str s => [cstr s]
  | .arr items => textsItems items
  | .obj members => textsMembers members
  | .null => []
  | .bool _ => []
  | .num _ => []

def textsItems : List (Cjson ν) → List CStr
  | [] => []
  | v :: rest => texts v ++ textsItems rest

def textsMembers : List (CStr × Cjson ν) → List CStr
  | [] => []
  | (k, v) :: rest => cstr k :: (texts v ++ textsMembers rest)

end

theorem valid_printString (s : CStr) : Valid (printString s) ↔ Valid (cstr s) := by
  have hquote : Ascii 34 := by decide
  rw [printString, List.cons_append, valid_cons_ascii hquote, valid_concat_ascii hquote]
  exact valid_flatMap (fun _ => escapeByte_of_not_ascii) (fun _ => escapeByte_ascii)

theorem ascii_head_printItems (vs : List (Cjson ν)) :
    ∀ b ∈ (printItems printNumber vs).head?, Ascii b := by
  cases vs with
  | nil => nofun
  | cons v rest =>
    rintro b hb
    obtain rfl := Option.some.inj hb
    decide

theorem ascii_head_printMembers (ms : List (CStr × Cjson ν)) :
    ∀ b ∈ (printMembers printNumber ms).head?, Ascii b := by
  cases ms with
  | nil => nofun
  | cons m rest =>
    rintro b hb
    obtain rfl := Option.some.inj hb
    decide

theorem ascii_number (h : PrintsNumbers printNumber) (n : ν) :
    ∀ b ∈ printNumber n, Ascii b := by
  rcases h n with hnum | hnull
  · exact hnum.lt
  · rw [hnull]
    exact Lib.JsonText.lt_of_all (by decide)

mutual

theorem valid_print (h : PrintsNumbers printNumber) :
    ∀ v, Valid (print printNumber v) ↔ ∀ t ∈ texts v, Valid t
  | .null => by
    have hvalid : Valid (print printNumber .null) := valid_of_all (s := lit "null") (by decide)
    simp [texts, hvalid]
  | .bool b => by
    have hvalid : Valid (print printNumber (.bool b)) := by
      cases b
      · exact valid_of_all (s := lit "false") (by decide)
      · exact valid_of_all (s := lit "true") (by decide)
    simp [texts, hvalid]
  | .num n => by
    have hvalid : Valid (print printNumber (.num n)) := valid_of_ascii (ascii_number h n)
    simp [texts, hvalid]
  | .str s => by
    have hstr := valid_printString s
    simpa [print, texts] using hstr
  | .arr [] => by
    have hvalid : Valid (print printNumber (.arr [])) := valid_of_all (s := lit "[]") (by decide)
    simp [texts, textsItems, hvalid]
  | .arr (v :: rest) => by
    have hv := valid_print h v
    have hrest := valid_printItems h rest
    rw [print, valid_cons_ascii (by decide), valid_concat_ascii (by decide),
      valid_append (ascii_head_printItems rest), hv, hrest, texts, textsItems,
      List.forall_mem_append]
  | .obj [] => by
    have hvalid : Valid (print printNumber (.obj [])) :=
      valid_of_all (s := lit "\x7b\x7d") (by decide)
    simp [texts, textsMembers, hvalid]
  | .obj ((k, v) :: rest) => by
    have hk := valid_printString k
    have hv := valid_print h v
    have hrest := valid_printMembers h rest
    rw [print, valid_cons_ascii (by decide), valid_append_ascii (by decide),
      valid_concat_ascii (by decide), valid_append (ascii_head_printMembers rest), hk, hv, hrest,
      texts, textsMembers, List.forall_mem_cons, List.forall_mem_append]

theorem valid_printItems (h : PrintsNumbers printNumber) :
    ∀ vs, Valid (printItems printNumber vs) ↔ ∀ t ∈ textsItems vs, Valid t
  | [] => by simp [printItems, textsItems, valid_nil]
  | v :: rest => by
    have hv := valid_print h v
    have hrest := valid_printItems h rest
    rw [printItems, valid_cons_ascii (by decide), valid_append (ascii_head_printItems rest), hv,
      hrest, textsItems, List.forall_mem_append]

theorem valid_printMembers (h : PrintsNumbers printNumber) :
    ∀ ms, Valid (printMembers printNumber ms) ↔ ∀ t ∈ textsMembers ms, Valid t
  | [] => by simp [printMembers, textsMembers, valid_nil]
  | (k, v) :: rest => by
    have hk := valid_printString k
    have hv := valid_print h v
    have hrest := valid_printMembers h rest
    rw [printMembers, valid_cons_ascii (by decide), valid_append_ascii (by decide),
      valid_append (ascii_head_printMembers rest), hk, hv, hrest, textsMembers,
      List.forall_mem_cons, List.forall_mem_append]

end

/-! ## Values whose texts are all UTF-8 -/

def AllValid (v : Cjson ν) : Prop := ∀ t ∈ texts v, Valid t

theorem mem_textsItems {t : CStr} {vs : List (Cjson ν)} :
    t ∈ textsItems vs ↔ ∃ v ∈ vs, t ∈ texts v := by
  induction vs with
  | nil => simp [textsItems]
  | cons v rest ih => simp [textsItems, ih]

theorem mem_textsMembers {t : CStr} {ms : List (CStr × Cjson ν)} :
    t ∈ textsMembers ms ↔ ∃ m ∈ ms, t = cstr m.1 ∨ t ∈ texts m.2 := by
  induction ms with
  | nil => simp [textsMembers]
  | cons m rest ih => simp [textsMembers, ih, or_assoc]

@[simp] theorem allValid_null : AllValid (.null : Cjson ν) := by simp [AllValid, texts]

@[simp] theorem allValid_bool (b : Bool) : AllValid (.bool b : Cjson ν) := by simp [AllValid, texts]

@[simp] theorem allValid_num (n : ν) : AllValid (.num n : Cjson ν) := by simp [AllValid, texts]

@[simp] theorem allValid_str (s : CStr) : AllValid (.str s : Cjson ν) ↔ Valid (cstr s) := by
  simp [AllValid, texts]

theorem allValid_arr (vs : List (Cjson ν)) : AllValid (.arr vs) ↔ ∀ v ∈ vs, AllValid v := by
  simp only [AllValid, texts, mem_textsItems]
  constructor
  · exact fun h v hv t ht => h t ⟨v, hv, ht⟩
  · rintro h t ⟨v, hv, ht⟩
    exact h v hv t ht

theorem allValid_obj (ms : List (CStr × Cjson ν)) :
    AllValid (.obj ms) ↔ ∀ m ∈ ms, Valid (cstr m.1) ∧ AllValid m.2 := by
  simp only [AllValid, texts, mem_textsMembers]
  constructor
  · exact fun h m hm => ⟨h _ ⟨m, hm, .inl rfl⟩, fun t ht => h t ⟨m, hm, .inr ht⟩⟩
  · rintro h t ⟨m, hm, rfl | ht⟩
    · exact (h m hm).1
    · exact (h m hm).2 t ht

end Proxiflare.Daemon.Cjson
