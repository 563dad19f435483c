import Mathlib.Data.List.DropRight
import Proxiflare.Lib.CString

/-!
# Reading an HTTP/1.1 request

A strict reader for a request without a body: lines end with CRLF, the request line
has one blank on either side of its target, a field is a token, a colon and printable
text, and the blank line is the last. It accepts the bytes of one request only.
-/

namespace Lib.HttpRequest

open Lib.CString

/-! ## Bytes -/

def isVchar (b : UInt8) : Bool := 33 ≤ b && b ≤ 126

def isBlank (b : UInt8) : Bool := b = 32 || b = 9

def isAlphanum (b : UInt8) : Bool := isDigit b || (65 ≤ b && b ≤ 90) || (97 ≤ b && b ≤ 122)

def isTchar (b : UInt8) : Bool := isAlphanum b || (lit "!#$%&'*+-.^_\x60|~").contains b

/-- A byte a field value may hold. -/
def isFieldByte (b : UInt8) : Bool := isVchar b || isBlank b || 128 ≤ b

def isHexDigit (b : UInt8) : Bool := isDigit b || (65 ≤ b && b ≤ 70) || (97 ≤ b && b ≤ 102)

/-- A byte that stands for itself in a registered name. -/
def isNameByte (b : UInt8) : Bool := isAlphanum b || (lit "-._~!$&'()*+,;=").contains b

/-- A registered name: plain bytes and percent-encoded ones. -/
def isRegName : CStr → Bool
  | [] => true
  | 37 :: a :: b :: rest => isHexDigit a && isHexDigit b && isRegName rest
  | c :: rest => isNameByte c && isRegName rest

/-! ## Cutting the text -/

/-- The parts before and after the first `sep`. -/
def cut (sep : UInt8) : CStr → Option (CStr × CStr)
  | [] => none
  | b :: s => if b = sep then some ([], s) else (cut sep s).map fun p => (b :: p.1, p.2)

def extendFirst (b : UInt8) : List CStr → Option (List CStr)
  | [] => none
  | l :: ls => some ((b :: l) :: ls)

/-- The lines of a text in which every line is ended by CRLF. -/
def crlfLines : CStr → Option (List CStr)
  | [] => some []
  | 13 :: 10 :: rest => (crlfLines rest).map ([] :: ·)
  | b :: rest => (crlfLines rest).bind (extendFirst b)

def trim (s : CStr) : CStr := (s.dropWhile isBlank).rdropWhile isBlank

/-! ## The reader -/

structure Request where
  method : CStr
  target : CStr
  fields : List (CStr × CStr)
  deriving DecidableEq

def parseField (line : CStr) : Option (CStr × CStr) := do
  let (name, value) ← cut 58 line
  guard (!name.isEmpty && name.all isTchar && value.all isFieldByte)
  pure (name, trim value)

def parseRequestLine (line : CStr) : Option (CStr × CStr) := do
  let (method, rest) ← cut 32 line
  let (target, version) ← cut 32 rest
  guard (!method.isEmpty && method.all isTchar && !target.isEmpty && target.all isVchar)
  guard (version = lit "HTTP/1.1")
  pure (method, target)

/-- The bytes are one request: a request line, fields, and a blank line that ends the text. -/
def parseRequest (bytes : CStr) : Option Request := do
  let lines ← crlfLines bytes
  let (method, target) ← parseRequestLine (lines.headD [])
  guard (lines.tail.getLast? = some [])
  let fields ← lines.tail.dropLast.mapM parseField
  pure ⟨method, target, fields⟩

/-- The target of a CONNECT request: a registered name, a colon and a port. -/
def parseAuthority (target : CStr) : Option (CStr × CStr) :=
  (cut 58 target).filter fun p =>
    !p.1.isEmpty && isRegName p.1 && !p.2.isEmpty && p.2.all isDigit

/-! ## Reading what was put together -/

variable {sep : UInt8} {pre post line rest : CStr}

theorem cut_append (h : sep ∉ pre) : cut sep (pre ++ sep :: post) = some (pre, post) := by
  induction pre with
  | nil => simp [cut]
  | cons b pre ih =>
    rw [List.mem_cons, not_or] at h
    rw [List.cons_append, cut, if_neg (Ne.symm h.1), ih h.2]
    rfl

theorem crlfLines_cons {b : UInt8} (hb : b ≠ 13) :
    crlfLines (b :: rest) = (crlfLines rest).bind (extendFirst b) := by
  rw [crlfLines]
  intro _ heq
  exact absurd heq hb

theorem crlfLines_append {ls : List CStr} (h : 13 ∉ line) (hrest : crlfLines rest = some ls) :
    crlfLines (line ++ 13 :: 10 :: rest) = some (line :: ls) := by
  induction line with
  | nil =>
    rw [List.nil_append, crlfLines, hrest]
    rfl
  | cons b line ih =>
    rw [List.mem_cons, not_or] at h
    rw [List.cons_append, crlfLines_cons (Ne.symm h.1), ih h.2]
    rfl

theorem trim_blank_cons {b : UInt8} (hb : isBlank b = true) {s : CStr}
    (hhead : ∀ c ∈ s.head?, isBlank c = false) (hlast : ∀ c ∈ s.getLast?, isBlank c = false) :
    trim (b :: s) = s := by
  unfold trim
  rw [List.dropWhile_cons_of_pos hb]
  cases s with
  | nil => rfl
  | cons c s =>
    rw [List.dropWhile_cons_of_neg (by simp [hhead c rfl]), List.rdropWhile_eq_self_iff]
    intro hne
    rw [hlast _ (List.getLast?_eq_getLast_of_ne_nil hne)]
    exact Bool.false_ne_true

/-! ## Round trip -/

def fieldLine (f : CStr × CStr) : CStr := f.1 ++ 58 :: 32 :: f.2

def render (r : Request) : CStr :=
  r.method ++ 32 :: r.target ++ 32 :: lit "HTTP/1.1" ++ 13 :: 10 ::
    ((r.fields.flatMap fun f => fieldLine f ++ [13, 10]) ++ [13, 10])

structure FieldOk (f : CStr × CStr) : Prop where
  name_ne_nil : f.1 ≠ []
  name : ∀ b ∈ f.1, isTchar b = true
  value : ∀ b ∈ f.2, isFieldByte b = true
  head : ∀ b ∈ f.2.head?, isBlank b = false
  last : ∀ b ∈ f.2.getLast?, isBlank b = false

structure RequestOk (r : Request) : Prop where
  method_ne_nil : r.method ≠ []
  method : ∀ b ∈ r.method, isTchar b = true
  target_ne_nil : r.target ≠ []
  target : ∀ b ∈ r.target, isVchar b = true
  fields : ∀ f ∈ r.fields, FieldOk f

/-- A byte outside a class is not among bytes of the class. -/
theorem notMem_of_class {p : UInt8 → Bool} {s : CStr} {b : UInt8} (h : ∀ c ∈ s, p c = true)
    (hb : p b = false) : b ∉ s := by
  intro hmem
  rw [h b hmem] at hb
  cases hb

theorem parseField_fieldLine {f : CStr × CStr} (h : FieldOk f) :
    parseField (fieldLine f) = some f := by
  have hcolon : (58 : UInt8) ∉ f.1 := notMem_of_class h.name (by decide)
  have hvalue : (32 :: f.2).all isFieldByte = true := by
    rw [List.all_cons, List.all_eq_true.mpr h.value]
    decide
  have hname : (!f.1.isEmpty) = true := by
    simpa using h.name_ne_nil
  unfold parseField fieldLine
  rw [cut_append hcolon]
  simp only [Option.bind_eq_bind, Option.bind_some, hname, hvalue, List.all_eq_true.mpr h.name,
    Bool.and_self, guard_true, Option.pure_def, Option.some.injEq]
  exact Prod.ext rfl (trim_blank_cons (by decide) h.head h.last)

theorem parseRequestLine_of_ok {r : Request} (h : RequestOk r) :
    parseRequestLine (r.method ++ 32 :: r.target ++ 32 :: lit "HTTP/1.1") =
      some (r.method, r.target) := by
  have hblank : (32 : UInt8) ∉ r.method := notMem_of_class h.method (by decide)
  have hblank' : (32 : UInt8) ∉ r.target := notMem_of_class h.target (by decide)
  have hmethod : (!r.method.isEmpty) = true := by simpa using h.method_ne_nil
  have htarget : (!r.target.isEmpty) = true := by simpa using h.target_ne_nil
  unfold parseRequestLine
  rw [List.append_assoc, List.cons_append, cut_append hblank]
  simp only [Option.bind_eq_bind, Option.bind_some, cut_append hblank', hmethod, htarget,
    List.all_eq_true.mpr h.method, List.all_eq_true.mpr h.target, Bool.and_self, guard_true,
    Option.pure_def]

theorem crlfLines_fields {fields : List (CStr × CStr)} (h : ∀ f ∈ fields, FieldOk f) :
    crlfLines ((fields.flatMap fun f => fieldLine f ++ [13, 10]) ++ [13, 10]) =
      some (fields.map fieldLine ++ [[]]) := by
  induction fields with
  | nil => rfl
  | cons f fields ih =>
    have hf := h f List.mem_cons_self
    have hline : (13 : UInt8) ∉ fieldLine f := by
      have hname : (13 : UInt8) ∉ f.1 := notMem_of_class hf.name (by decide)
      have hvalue : (13 : UInt8) ∉ f.2 := notMem_of_class hf.value (by decide)
      simp [fieldLine, hname, hvalue]
    have hrest := crlfLines_append hline (ih fun g hg => h g (List.mem_cons_of_mem f hg))
    simpa using hrest

theorem mapM_parseField {fields : List (CStr × CStr)} (h : ∀ f ∈ fields, FieldOk f) :
    (fields.map fieldLine).mapM parseField = some fields := by
  induction fields with
  | nil => rfl
  | cons f fields ih =>
    rw [List.map_cons, List.mapM_cons, parseField_fieldLine (h f List.mem_cons_self),
      ih fun g hg => h g (List.mem_cons_of_mem f hg)]
    rfl

/-- What is put together from well-formed parts is read as these parts. -/
theorem parseRequest_render {r : Request} (h : RequestOk r) : parseRequest (render r) = some r := by
  have hline : (13 : UInt8) ∉ r.method ++ 32 :: r.target ++ 32 :: lit "HTTP/1.1" := by
    have hmethod : (13 : UInt8) ∉ r.method := notMem_of_class h.method (by decide)
    have htarget : (13 : UInt8) ∉ r.target := notMem_of_class h.target (by decide)
    have hversion : (13 : UInt8) ∉ lit "HTTP/1.1" := by decide
    simp [hmethod, htarget, hversion]
  unfold parseRequest render
  rw [crlfLines_append hline (crlfLines_fields h.fields)]
  simp only [Option.bind_eq_bind, Option.bind_some, List.headD_cons, List.tail_cons,
    parseRequestLine_of_ok h, List.getLast?_append, List.getLast?_singleton, List.dropLast_concat,
    mapM_parseField h.fields, Option.pure_def]
  rfl

theorem parseAuthority_append {host port : CStr} (hne : host ≠ []) (hhost : isRegName host = true)
    (hcolon : 58 ∉ host) (hport : port ≠ []) (hdigits : ∀ b ∈ port, isDigit b = true) :
    parseAuthority (host ++ 58 :: port) = some (host, port) := by
  unfold parseAuthority
  rw [cut_append hcolon, Option.filter_eq_some_iff]
  refine ⟨rfl, ?_⟩
  simpa [hne, hhost, hport] using hdigits

/-! ## Registered names are printable and have no colon -/

theorem isVchar_of_isNameByte {b : UInt8} (h : isNameByte b = true) : isVchar b = true := by
  have hb : (!isNameByte b || isVchar b) = true :=
    forall_byte (p := fun b => !isNameByte b || isVchar b) (by decide +kernel) b
  rwa [h] at hb

theorem isNameByte_of_isHexDigit {b : UInt8} (h : isHexDigit b = true) : isNameByte b = true := by
  have hb : (!isHexDigit b || isNameByte b) = true :=
    forall_byte (p := fun b => !isHexDigit b || isNameByte b) (by decide +kernel) b
  rwa [h] at hb

theorem isRegName_bytes {s : CStr} (h : isRegName s = true) :
    ∀ b ∈ s, b = 37 ∨ isNameByte b = true := by
  fun_induction isRegName s with
  | case1 => exact List.forall_mem_nil _
  | case2 a b rest ih =>
    simp only [Bool.and_eq_true] at h
    intro c hc
    simp only [List.mem_cons] at hc
    obtain rfl | rfl | rfl | hc := hc
    · exact .inl rfl
    · exact .inr (isNameByte_of_isHexDigit h.1.1)
    · exact .inr (isNameByte_of_isHexDigit h.1.2)
    · exact ih h.2 c hc
  | case3 c rest _ ih =>
    simp only [Bool.and_eq_true] at h
    intro d hd
    rcases List.mem_cons.mp hd with rfl | hd
    · exact .inr h.1
    · exact ih h.2 d hd

theorem isRegName_vchar {s : CStr} (h : isRegName s = true) : ∀ b ∈ s, isVchar b = true := by
  intro b hb
  rcases isRegName_bytes h b hb with rfl | hname
  · decide
  · exact isVchar_of_isNameByte hname

theorem isRegName_notMem {s : CStr} (h : isRegName s = true) {b : UInt8} (hpct : b ≠ 37)
    (hb : isNameByte b = false) : b ∉ s := by
  intro hmem
  rcases isRegName_bytes h b hmem with rfl | hname
  · exact hpct rfl
  · rw [hname] at hb
    cases hb

end Lib.HttpRequest
