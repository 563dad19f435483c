import Proxiflare.Daemon.PrintedJson
import Proxiflare.Gui.DaemonClient
import Proxiflare.Lib.LastWins

/-!
# What the client reads from a reply

`serde_json::from_str` on a line of the daemon: strings and numbers as they were printed, and of an
object a map, in which a name has the last of its values. The order of the map is left open.
-/

namespace Proxiflare.Daemon.Cjson

open Lib.CString

variable {ν : Type} {ms : List (CStr × Cjson ν)} {n : Nat}

mutual

/-- How deep the arrays and objects of a value are nested. -/
def depth : Cjson ν → Nat
  | .arr items => depthItems items + 1
  | .obj members => depthMembers members + 1
  | .null => 0
  | .bool _ => 0
  | .num _ => 0
  | .str _ => 0

def depthItems : List (Cjson ν) → Nat
  | [] => 0
  | v :: rest => max (depth v) (depthItems rest)

def depthMembers : List (CStr × Cjson ν) → Nat
  | [] => 0
  | (_, v) :: rest => max (depth v) (depthMembers rest)

end

theorem depth_obj_le (h : ∀ m ∈ ms, m.2.depth ≤ n) : (Cjson.obj ms).depth ≤ n + 1 := by
  rw [depth]
  apply Nat.succ_le_succ
  induction ms with
  | nil => exact Nat.zero_le n
  | cons m ms ih =>
    obtain ⟨hm, hrest⟩ := List.forall_mem_cons.mp h
    rw [depthMembers]
    exact Nat.max_le.mpr ⟨hm, ih hrest⟩

end Proxiflare.Daemon.Cjson

namespace Proxiflare.Gui

open Lib.CString Lib.LastWins Lib.Utf8
open Proxiflare.Daemon

variable {ν : Type}

/-- What `serde_json` makes of a number, and the order it keeps the names of an object in. -/
structure Serde (ν : Type) where
  number : ν → Cjson ν
  map : List (CStr × Cjson ν) → List (CStr × Cjson ν)

mutual

/-- The `Value` of a printed value. -/
def Serde.value (r : Serde ν) : Cjson ν → Cjson ν
  | .null => .null
  | .bool b => .bool b
  | .num n => r.number n
  | .str s => .str (cstr s)
  | .arr items => .arr (r.items items)
  | .obj members => .obj (r.map (r.members members))

def Serde.items (r : Serde ν) : List (Cjson ν) → List (Cjson ν)
  | [] => []
  | v :: rest => r.value v :: r.items rest

def Serde.members (r : Serde ν) : List (CStr × Cjson ν) → List (CStr × Cjson ν)
  | [] => []
  | (k, v) :: rest => (cstr k, r.value v) :: r.members rest

end

theorem Serde.members_eq (r : Serde ν) (ms : List (CStr × Cjson ν)) :
    r.members ms = ms.map fun m => (cstr m.1, r.value m.2) := by
  induction ms with
  | nil => rw [Serde.members, List.map_nil]
  | cons m ms ih => rw [Serde.members, ih, List.map_cons]

/-- `String::from_utf8` and `serde_json::from_str` on the text of a value. The parser stops at 128
levels. -/
structure Wire.Reads (w : Wire ν) (r : Serde ν) (v : Cjson ν) : Prop where
  utf8 : ∀ bytes, w.fromUtf8 bytes = true ↔ Valid bytes
  map : ∀ ms, MapOf ms (r.map ms)
  text : v.AllValid → v.depth < 128 → w.fromText (v.print w.printNumber) = some (r.value v)

/-- With a text that is nested deeper the parser gives up. -/
structure Wire.ReadsAll (w : Wire ν) (r : Serde ν) (v : Cjson ν) : Prop extends w.Reads r v where
  deep : 128 ≤ v.depth → w.fromText (v.print w.printNumber) = none

variable {w : Wire ν} {r : Serde ν} {v x : Cjson ν} {ms : List (CStr × Cjson ν)}

/-- A name of an object, looked up in the map. -/
theorem get_value (hmap : ∀ ms, MapOf ms (r.map ms)) (key : CStr) :
    get (r.value (.obj ms)) key = lastOf (r.members ms) key := by
  rw [Serde.value, get]
  exact (hmap (r.members ms)).find? key

/-! ## What is kept of a value -/

mutual

/-- The second is the value of the first, whose texts and names are C strings. The members of an
object have no order. -/
def SameValue : Cjson ν → Cjson ν → Prop
  | .null, v => v = .null
  | .bool b, v => v = .bool b
  | .num n, v => v = .num n
  | .str s, v => v = .str (cstr s)
  | .arr items, v => ∃ vs, v = .arr vs ∧ SameItems items vs
  | .obj members, v => ∃ pairs ps, v = .obj pairs ∧ pairs.Perm ps ∧ SameMembers members ps

def SameItems : List (Cjson ν) → List (Cjson ν) → Prop
  | [], vs => vs = []
  | x :: rest, vs => ∃ v vs', vs = v :: vs' ∧ SameValue x v ∧ SameItems rest vs'

def SameMembers : List (CStr × Cjson ν) → List (CStr × Cjson ν) → Prop
  | [], ps => ps = []
  | (k, x) :: rest, ps => ∃ v ps', ps = (cstr k, v) :: ps' ∧ SameValue x v ∧ SameMembers rest ps'

end

mutual

/-- No object has a name twice, and every number is read as itself. -/
def Serde.Keeps (r : Serde ν) : Cjson ν → Prop
  | .null => True
  | .bool _ => True
  | .num n => r.number n = .num n
  | .str _ => True
  | .arr items => r.KeepsItems items
  | .obj members => (members.map fun m => cstr m.1).Nodup ∧ r.KeepsMembers members

def Serde.KeepsItems (r : Serde ν) : List (Cjson ν) → Prop
  | [] => True
  | v :: rest => r.Keeps v ∧ r.KeepsItems rest

def Serde.KeepsMembers (r : Serde ν) : List (CStr × Cjson ν) → Prop
  | [] => True
  | (_, v) :: rest => r.Keeps v ∧ r.KeepsMembers rest

end

mutual

def Serde.decKeeps (r : Serde ν) [∀ n, Decidable (r.number n = .num n)] :
    ∀ x, Decidable (r.Keeps x)
  | .null => .isTrue trivial
  | .bool _ => .isTrue trivial
  | .num n => inferInstanceAs (Decidable (r.number n = .num n))
  | .str _ => .isTrue trivial
  | .arr items => r.decKeepsItems items
  | .obj members =>
    haveI := r.decKeepsMembers members
    inferInstanceAs (Decidable (_ ∧ _))

def Serde.decKeepsItems (r : Serde ν) [∀ n, Decidable (r.number n = .num n)] :
    ∀ items, Decidable (r.KeepsItems items)
  | [] => .isTrue trivial
  | v :: rest =>
    haveI := r.decKeeps v
    haveI := r.decKeepsItems rest
    inferInstanceAs (Decidable (_ ∧ _))

def Serde.decKeepsMembers (r : Serde ν) [∀ n, Decidable (r.number n = .num n)] :
    ∀ members, Decidable (r.KeepsMembers members)
  | [] => .isTrue trivial
  | (_, v) :: rest =>
    haveI := r.decKeeps v
    haveI := r.decKeepsMembers rest
    inferInstanceAs (Decidable (_ ∧ _))

end

instance (r : Serde ν) [∀ n, Decidable (r.number n = .num n)] (x : Cjson ν) :
    Decidable (r.Keeps x) := r.decKeeps x

theorem SameMembers.names {ps : List (CStr × Cjson ν)} (h : SameMembers ms ps) :
    ps.map Prod.fst = ms.map fun m => cstr m.1 := by
  induction ms generalizing ps with
  | nil => rw [show ps = [] from h, List.map_nil, List.map_nil]
  | cons m ms ih =>
    obtain ⟨v, ps', rfl, -, hrest⟩ := h
    rw [List.map_cons, List.map_cons, ih hrest]

theorem names_members (r : Serde ν) (ms : List (CStr × Cjson ν)) :
    (r.members ms).map Prod.fst = ms.map fun m => cstr m.1 := by
  rw [Serde.members_eq, List.map_map]
  rfl

/-- Members read into a map, and the same members in some order, are the members read. -/
theorem exists_perm_members_iff (hmap : ∀ ms, MapOf ms (r.map ms)) :
    (∃ ps, (r.map (r.members ms)).Perm ps ∧ SameMembers ms ps) ↔
      (ms.map fun m => cstr m.1).Nodup ∧ SameMembers ms (r.members ms) := by
  have hperm := (hmap (r.members ms)).perm_iff
  rw [names_members] at hperm
  constructor
  · rintro ⟨ps, hps, hsame⟩
    have hnames : ps.map Prod.fst = (r.members ms).map Prod.fst := by
      rw [hsame.names, names_members]
    have hnodup : (ps.map Prod.fst).Nodup :=
      (hps.map Prod.fst).nodup_iff.mp (hmap (r.members ms)).nodup
    have hread : (ms.map fun m => cstr m.1).Nodup := by rwa [hnames, names_members] at hnodup
    rw [← eq_of_perm hnames hnodup (hps.symm.trans (hperm.mpr hread))]
    exact ⟨hread, hsame⟩
  · rintro ⟨hnodup, hsame⟩
    exact ⟨r.members ms, hperm.mpr hnodup, hsame⟩

mutual

/-- The client has the value that was printed exactly where nothing is lost. -/
theorem sameValue_iff (hmap : ∀ ms, MapOf ms (r.map ms)) :
    ∀ x : Cjson ν, SameValue x (r.value x) ↔ r.Keeps x
  | .null => iff_of_true rfl trivial
  | .bool _ => iff_of_true rfl trivial
  | .num _ => Iff.rfl
  | .str _ => iff_of_true rfl trivial
  | .arr items => by
    rw [SameValue, Serde.value, Serde.Keeps, ← sameItems_iff hmap items]
    simp only [Cjson.arr.injEq, exists_eq_left']
  | .obj members => by
    rw [SameValue, Serde.value, Serde.Keeps, ← sameMembers_iff hmap members,
      ← exists_perm_members_iff hmap]
    simp only [Cjson.obj.injEq, exists_and_left, exists_eq_left']

theorem sameItems_iff (hmap : ∀ ms, MapOf ms (r.map ms)) :
    ∀ items : List (Cjson ν), SameItems items (r.items items) ↔ r.KeepsItems items
  | [] => iff_of_true rfl trivial
  | x :: rest => by
    rw [SameItems, Serde.items, Serde.KeepsItems, ← sameValue_iff hmap x, ← sameItems_iff hmap rest]
    simp only [List.cons.injEq, and_assoc, exists_and_left, exists_eq_left']

theorem sameMembers_iff (hmap : ∀ ms, MapOf ms (r.map ms)) :
    ∀ members : List (CStr × Cjson ν),
      SameMembers members (r.members members) ↔ r.KeepsMembers members
  | [] => iff_of_true rfl trivial
  | (k, x) :: rest => by
    rw [SameMembers, Serde.members, Serde.KeepsMembers, ← sameValue_iff hmap x,
      ← sameMembers_iff hmap rest]
    simp only [List.cons.injEq, Prod.mk.injEq, true_and, and_assoc, exists_and_left,
      exists_eq_left']

end

/-! ## Replies -/

/-- The daemon's reply to a request that has a result. -/
def wrapped (id x : Cjson ν) : Cjson ν :=
  .obj [(lit "id", id), (lit "result", .obj [(lit "result", x)])]

theorem unwrapResponse_wrapped (hmap : ∀ ms, MapOf ms (r.map ms)) (id : Cjson ν) :
    unwrapResponse (r.value (wrapped id x)) = .ok (r.value x) := by
  have herror : get (r.value (wrapped id x)) (lit "error") = none := by
    rw [wrapped, get_value hmap]
    rfl
  have houter : get (r.value (wrapped id x)) (lit "result") =
      some (r.value (.obj [(lit "result", x)])) := by
    rw [wrapped, get_value hmap]
    rfl
  have hinner : get (r.value (.obj [(lit "result", x)])) (lit "result") = some (r.value x) := by
    rw [get_value hmap]
    rfl
  rw [unwrapResponse, herror, houter]
  dsimp only [Option.getD_some]
  rw [hinner]

theorem readResponse_value (hreads : w.Reads r v) (hnum : Cjson.PrintsNumbers w.printNumber)
    (hvalid : v.AllValid) (hdepth : v.depth < 128) (hne : v.print w.printNumber ≠ []) :
    readResponse w (v.print w.printNumber) = unwrapResponse (r.value v) := by
  have hutf8 := (hreads.utf8 _).mpr ((Cjson.valid_print hnum v).mpr hvalid)
  rw [readResponse, hutf8, if_neg (by decide), if_neg hne, hreads.text hvalid hdepth]

theorem readResponse_wrapped (id : Cjson ν) (hreads : w.Reads r (wrapped id x))
    (hnum : Cjson.PrintsNumbers w.printNumber) (hvalid : (wrapped id x).AllValid)
    (hdepth : (wrapped id x).depth < 128) :
    readResponse w ((wrapped id x).print w.printNumber) = .ok (r.value x) := by
  rw [readResponse_value hreads hnum hvalid hdepth (List.cons_ne_nil _ _)]
  exact unwrapResponse_wrapped hreads.map id

theorem readResponse_not_utf8 (hreads : w.Reads r v) (hnum : Cjson.PrintsNumbers w.printNumber)
    (hvalid : ¬ v.AllValid) : readResponse w (v.print w.printNumber) = .error .utf8 := by
  have hutf8 : w.fromUtf8 (v.print w.printNumber) = false := by
    rw [Bool.eq_false_iff]
    exact fun h => hvalid ((Cjson.valid_print hnum v).mp ((hreads.utf8 _).mp h))
  rw [readResponse, hutf8, if_pos (by decide)]

theorem readResponse_deep (hreads : w.ReadsAll r v) (hnum : Cjson.PrintsNumbers w.printNumber)
    (hvalid : v.AllValid) (hdepth : 128 ≤ v.depth) (hne : v.print w.printNumber ≠ []) :
    readResponse w (v.print w.printNumber) = .error .json := by
  have hutf8 := (hreads.utf8 _).mpr ((Cjson.valid_print hnum v).mpr hvalid)
  rw [readResponse, hutf8, if_neg (by decide), if_neg hne, hreads.deep hdepth]

end Proxiflare.Gui
