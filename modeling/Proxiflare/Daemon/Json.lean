import Proxiflare.Daemon.Config

/-!
# Request parameters

The readers of `vendor/cJSON` that `main.c` uses on `params`, and its pattern
`if ((v = cJSON_GetObjectItem(params, key))) field = …`. A number is kept by its
integral part, which is all these readers see of it. A conversion out of range is
undefined in C; here it gives what the x86-64 instruction for it leaves, which for `int` is
`INT_MIN`.
-/

namespace Proxiflare.Daemon

open Lib.CString

inductive Json where
  | null
  | bool (b : Bool)
  | num (n : Int)
  | str (s : CStr)
  | arr (items : List Json)
  | obj (members : List (CStr × Json))

/-- `(int)` of a double. -/
def toInt32 (n : Int) : Int := if -2 ^ 31 ≤ n ∧ n < 2 ^ 31 then n else -2 ^ 31

/-- `(uint32_t)` of a double: the low half of the conversion to 64 bits, of which `INT64_MIN` has
none set. -/
def toUInt32 (n : Int) : Nat := if -2 ^ 63 ≤ n ∧ n < 2 ^ 63 then (n % 2 ^ 32).toNat else 0

/-- `(uint16_t)` of a double: the low half of the conversion to `int`. -/
def portOfDouble (n : Int) : UInt16 := toUInt16 (toInt32 n)

namespace Json

/-- `cJSON_GetObjectItem`: the first member whose name agrees up to case, also when it is null. -/
def getObjectItem : Json → CStr → Option Json
  | .obj members, key => (members.find? fun m => strcaseeq (cstr m.1) key).map Prod.snd
  | _, _ => none

/-- `valuestring` is NULL on anything but a string. -/
def valuestring : Json → Option CStr
  | .str s => some (cstr s)
  | _ => none

/-- `valuedouble` is zero on anything but a number. -/
def valuedouble : Json → Int
  | .num n => n
  | _ => 0

def isTrue : Json → Bool
  | .bool b => b
  | _ => false

/-- The first of two spellings of a key that is present. -/
def getEither (params : Json) (key key' : CStr) : Option Json :=
  (params.getObjectItem key).or (params.getObjectItem key')

/-- `int id = id_v ? (int)id_v->valuedouble : 0`. -/
def idOf (params : Json) : Int :=
  ((params.getObjectItem (lit "id")).map fun v => toInt32 v.valuedouble).getD 0

end Json

/-! ## Fields overlaid on a record -/

/-- The item converted, or the old value when the key is absent. -/
def overlay {α β : Type} (v : Option β) (convert : β → α) (old : α) : α := (v.map convert).getD old

/-- A text field takes a string and nothing else. -/
def overlayText {cap : Nat} [BufSize cap] (v : Option Json) (old : CBuf cap) : CBuf cap :=
  overlay (v.bind Json.valuestring) .snprintf old

/-- A port takes a non-empty string through `atoi`, or a number. -/
def overlayPort (v : Option Json) (old : UInt16) : UInt16 :=
  match v with
  | some (.str s) => if cstr s = [] then old else toUInt16 (atoi (cstr s))
  | some (.num n) => portOfDouble n
  | _ => old

/-- `proxy_id` and `chain_id`: nothing positive is no reference. -/
def refId (v : Json) : Nat := if 0 < v.valuedouble then toUInt32 v.valuedouble else 0

/-- `cJSON_IsTrue(v) ? 1 : 0`. -/
def flag (v : Json) : Int := if v.isTrue then 1 else 0

theorem flag_bool (v : Json) : flag v = 0 ∨ flag v = 1 := by
  unfold flag
  split
  · exact .inr rfl
  · exact .inl rfl

/-- What holds of every converted item and of the old value holds of the result. -/
theorem overlay_ind {α β : Type} {P : α → Prop} {v : Option β} {convert : β → α} {old : α}
    (hold : P old) (hconv : ∀ b, P (convert b)) : P (overlay v convert old) := by
  cases v with
  | none => exact hold
  | some b => exact hconv b

end Proxiflare.Daemon
