import Proxiflare.Lib.CString

/-!
# cJSON values

What `ipc.c` and the reply builders of `main.c` use of `vendor/cJSON`: the readers
of an item and `cJSON_PrintUnformatted`, allocation taken to succeed. `ν` stands for
the doubles and `printNumber` for the text `print_number` gives one.
-/

namespace Proxiflare.Daemon

open Lib.CString

inductive Cjson (ν : Type) where
  | null
  | bool (b : Bool)
  | num (n : ν)
  | str (s : CStr)
  | arr (items : List (Cjson ν))
  | obj (members : List (CStr × Cjson ν))

namespace Cjson

variable {ν : Type}

/-- `cJSON_GetObjectItemCaseSensitive`. -/
def getItem : Cjson ν → CStr → Option (Cjson ν)
  | .obj members, key => (members.find? fun m => cstr m.1 = key).map Prod.snd
  | _, _ => none

/-- `cJSON_IsString(item) ? item->valuestring : NULL`. -/
def stringValue : Cjson ν → Option CStr
  | .str s => some (cstr s)
  | _ => none

/-! ## Printing -/

def hexDigit (n : UInt8) : UInt8 := if n < 10 then 48 + n else 87 + n

/-- One byte inside a printed string. Bytes from 127 on are copied. -/
def escapeByte (c : UInt8) : CStr :=
  if 31 < c && c ≠ 34 && c ≠ 92 then [c]
  else 92 :: match c with
    | 92 => [92]
    | 34 => [34]
    | 8 => lit "b"
    | 12 => lit "f"
    | 10 => lit "n"
    | 13 => lit "r"
    | 9 => lit "t"
    | c => lit "u00" ++ [hexDigit (c / 16), hexDigit (c % 16)]

def printString (s : CStr) : CStr := 34 :: (cstr s).flatMap escapeByte ++ [34]

mutual

/-- `cJSON_PrintUnformatted`. -/
def print (printNumber : ν → CStr) : Cjson ν → CStr
  | .null => lit "null"
  | .bool b => if b then lit "true" else lit "false"
  | .num n => printNumber n
  | .str s => printString s
  | .arr [] => lit "[]"
  | .arr (v :: rest) => 91 :: (print printNumber v ++ printItems printNumber rest ++ [93])
  | .obj [] => lit "\x7b\x7d"
  | .obj ((k, v) :: rest) =>
    123 :: (printString k ++ 58 :: (print printNumber v ++ printMembers printNumber rest ++ [125]))

def printItems (printNumber : ν → CStr) : List (Cjson ν) → CStr
  | [] => []
  | v :: rest => 44 :: (print printNumber v ++ printItems printNumber rest)

def printMembers (printNumber : ν → CStr) : List (CStr × Cjson ν) → CStr
  | [] => []
  | (k, v) :: rest =>
    44 :: (printString k ++ 58 :: (print printNumber v ++ printMembers printNumber rest))

end

/-! ## Printed text has no control characters -/

private theorem ge_of_all {s : CStr} (h : s.all (32 ≤ ·) = true) : ∀ b ∈ s, 32 ≤ b :=
  fun b hb => of_decide_eq_true (List.all_eq_true.mp h b hb)

private theorem escapeByte_ofNat :
    ∀ n : Fin 256, (escapeByte (UInt8.ofNat n)).all (32 ≤ ·) = true := by
  decide +kernel

theorem escapeByte_ge (c : UInt8) : ∀ b ∈ escapeByte c, 32 ≤ b := by
  have h := escapeByte_ofNat ⟨c.toNat, c.toNat_lt⟩
  rw [UInt8.ofNat_toNat] at h
  exact ge_of_all h

theorem printString_ge (s : CStr) : ∀ b ∈ printString s, 32 ≤ b := by
  intro b hb
  rcases List.mem_append.mp hb with hb | hb
  · rcases List.mem_cons.mp hb with rfl | hb
    · decide
    · obtain ⟨c, -, hc⟩ := List.mem_flatMap.mp hb
      exact escapeByte_ge c b hc
  · obtain rfl := List.mem_singleton.mp hb
    decide

variable {printNumber : ν → CStr}

mutual

theorem print_ge (h : ∀ n, ∀ b ∈ printNumber n, 32 ≤ b) : ∀ v, ∀ b ∈ print printNumber v, 32 ≤ b
  | .null => ge_of_all (s := lit "null") (by decide)
  | .bool true => ge_of_all (s := lit "true") (by decide)
  | .bool false => ge_of_all (s := lit "false") (by decide)
  | .num n => h n
  | .str s => printString_ge s
  | .arr [] => ge_of_all (s := lit "[]") (by decide)
  | .arr (v :: rest) => by
    have hv := print_ge h v
    have hrest := printItems_ge h rest
    simp only [print, List.forall_mem_cons, List.forall_mem_append]
    exact ⟨by decide, ⟨hv, hrest⟩, by decide, nofun⟩
  | .obj [] => ge_of_all (s := lit "\x7b\x7d") (by decide)
  | .obj ((k, v) :: rest) => by
    have hk := printString_ge k
    have hv := print_ge h v
    have hrest := printMembers_ge h rest
    simp only [print, List.forall_mem_cons, List.forall_mem_append]
    exact ⟨by decide, hk, by decide, ⟨hv, hrest⟩, by decide, nofun⟩

theorem printItems_ge (h : ∀ n, ∀ b ∈ printNumber n, 32 ≤ b) :
    ∀ vs, ∀ b ∈ printItems printNumber vs, 32 ≤ b
  | [] => nofun
  | v :: rest => by
    have hv := print_ge h v
    have hrest := printItems_ge h rest
    simp only [printItems, List.forall_mem_cons, List.forall_mem_append]
    exact ⟨by decide, hv, hrest⟩

theorem printMembers_ge (h : ∀ n, ∀ b ∈ printNumber n, 32 ≤ b) :
    ∀ ms, ∀ b ∈ printMembers printNumber ms, 32 ≤ b
  | [] => nofun
  | (k, v) :: rest => by
    have hk := printString_ge k
    have hv := print_ge h v
    have hrest := printMembers_ge h rest
    simp only [printMembers, List.forall_mem_cons, List.forall_mem_append]
    exact ⟨by decide, hk, by decide, hv, hrest⟩

end

/-- A printed value fits on a line. -/
theorem newline_notMem_print (h : ∀ n, ∀ b ∈ printNumber n, 32 ≤ b) (v : Cjson ν) :
    10 ∉ print printNumber v := by
  intro hmem
  exact absurd (print_ge h v 10 hmem) (by decide)

end Cjson

end Proxiflare.Daemon
