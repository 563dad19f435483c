import Mathlib.Data.List.Basic

/-!
# Writing a TLS ClientHello

The bytes of a ClientHello that fits one record: vectors with their lengths in front,
inside a handshake message, inside a record. A hello has one server name extension
with one host name; any other extensions stand before and after it.
-/

namespace Lib.ClientHello

abbrev Bytes := List UInt8

/-! ## Numbers and vectors -/

/-- Big-endian, in two and in three bytes. -/
def be16 (n : Nat) : Bytes := [UInt8.ofNat (n / 256), UInt8.ofNat n]

def be24 (n : Nat) : Bytes := [UInt8.ofNat (n / 65536), UInt8.ofNat (n / 256), UInt8.ofNat n]

/-- A vector behind a length of one byte, and one behind a length of two. -/
def vector8 (bytes : Bytes) : Bytes := UInt8.ofNat bytes.length :: bytes

def vector16 (bytes : Bytes) : Bytes := be16 bytes.length ++ bytes

@[simp] theorem length_be16 (n : Nat) : (be16 n).length = 2 := rfl

@[simp] theorem length_vector8 (bytes : Bytes) : (vector8 bytes).length = 1 + bytes.length := by
  rw [vector8, List.length_cons, Nat.add_comm]

@[simp] theorem length_vector16 (bytes : Bytes) : (vector16 bytes).length = 2 + bytes.length := by
  rw [vector16, List.length_append, length_be16]

/-! ## The message -/

structure Extension where
  type : UInt16
  data : Bytes

def Extension.bytes (e : Extension) : Bytes := be16 e.type.toNat ++ vector16 e.data

theorem length_bytes (e : Extension) : e.bytes.length = 4 + e.data.length := by
  simp only [Extension.bytes, List.length_append, length_be16, length_vector16]
  omega

theorem length_le_bytes (exts : List Extension) :
    exts.length ≤ (exts.flatMap Extension.bytes).length := by
  induction exts with
  | nil => exact Nat.le_refl _
  | cons e exts ih =>
    have hlen := length_bytes e
    rw [List.flatMap_cons, List.length_append, List.length_cons]
    omega

/-- The server name extension, type 0: a list of one entry, of type `host_name`. -/
def serverName (name : Bytes) : Extension := ⟨0, vector16 (0 :: vector16 name)⟩

/-- What a client may put in a hello. The extensions other than the server name are those
`before` and `after` it. -/
structure Hello where
  recordMinor : UInt8
  major : UInt8
  minor : UInt8
  random : Bytes
  sessionId : Bytes
  ciphers : List UInt16
  compression : Bytes
  before : List Extension
  name : Bytes
  after : List Extension
  random_length : random.length = 32
  before_type : ∀ e ∈ before, e.type ≠ 0
  after_type : ∀ e ∈ after, e.type ≠ 0
  name_ne_nil : name ≠ []

namespace Hello

def extensions (h : Hello) : Bytes :=
  h.before.flatMap Extension.bytes ++ ((serverName h.name).bytes ++ h.after.flatMap Extension.bytes)

def body (h : Hello) : Bytes :=
  [h.major, h.minor] ++ (h.random ++ (vector8 h.sessionId ++
    (vector16 (h.ciphers.flatMap fun c => be16 c.toNat) ++ (vector8 h.compression ++
      vector16 h.extensions))))

/-- Handshake message of type 1, its length in three bytes. -/
def handshake (h : Hello) : Bytes := 1 :: (be24 h.body.length ++ h.body)

/-- The record: content type 22, version 3.x, and the handshake message. -/
def record (h : Hello) : Bytes := 0x16 :: 3 :: h.recordMinor :: vector16 h.handshake

/-- Every length fits its field; the record's bounds those of the vectors inside it. -/
structure Fits (h : Hello) : Prop where
  sessionId : h.sessionId.length < 256
  compression : h.compression.length < 256
  record : h.handshake.length < 65536

theorem length_handshake (h : Hello) : h.handshake.length = 4 + h.body.length := by
  show (be24 h.body.length ++ h.body).length + 1 = _
  rw [List.length_append]
  show 3 + h.body.length + 1 = _
  omega

theorem length_body (h : Hello) :
    h.body.length = 2 + (h.random.length + (1 + h.sessionId.length +
      (2 + (h.ciphers.flatMap fun c => be16 c.toNat).length + (1 + h.compression.length +
        (2 + h.extensions.length))))) := by
  simp only [body, List.length_append, length_vector8, length_vector16, List.length_cons,
    List.length_nil]

theorem length_extensions (h : Hello) :
    h.extensions.length = (h.before.flatMap Extension.bytes).length +
      (4 + (2 + (3 + h.name.length)) + (h.after.flatMap Extension.bytes).length) := by
  simp only [extensions, serverName, length_bytes, List.length_append, length_vector16,
    List.length_cons]
  omega

/-- The extensions and the cipher list of a hello that fits are short enough for their lengths. -/
theorem Fits.extensions_lt {h : Hello} (hfits : h.Fits) : h.extensions.length < 65536 := by
  have hrecord := hfits.record
  rw [length_handshake, length_body] at hrecord
  omega

theorem Fits.ciphers_lt {h : Hello} (hfits : h.Fits) :
    (h.ciphers.flatMap fun c => be16 c.toNat).length < 65536 := by
  have hrecord := hfits.record
  rw [length_handshake, length_body] at hrecord
  omega

end Hello

end Lib.ClientHello
