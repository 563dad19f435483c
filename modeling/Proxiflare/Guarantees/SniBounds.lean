import Proxiflare.Daemon.SniMemory

/-!
# Reading a server name stays within its buffers

Every length a hello gives is checked before the bytes it spans are read, against the end
of the buffer, of the extension block or of the extension. So the parser on memory never
faults, ends after at most as many turns as there are bytes, and leaves in `out` what the
reader finds.
-/

namespace Proxiflare.Guarantees.SniBounds

open Lib Lib.CString Lib.CBody
open Proxiflare.Daemon

/-- The number of bytes returned fits `out`; that many input bytes stand there, terminated, and
without a name `out` is as it was. -/
structure Framed (data : CStr) (outMax : Nat) (out : CStr) (r : Int) (out' : CStr) : Prop where
  nonneg : 0 ≤ r
  lt : r < outMax
  copied : 0 < r → ∃ name, name <:+: data ∧ (name.length : Int) = r ∧
    out' = name ++ 0 :: out.drop (name.length + 1)
  untouched : r = 0 → out' = out

/-- A name found is never empty where `out` has room for a byte. -/
theorem sniExtensions_pos {data s : CStr} {outMax extsEnd n off : Nat} (hmax : 2 ≤ outMax)
    (hend : extsEnd ≤ data.length) (h : sniExtensions data outMax extsEnd n off = some s) :
    0 < s.length := by
  induction n generalizing off with
  | zero => cases h
  | succ n ih =>
    rw [sniExtensions_succ] at h
    split at h
    · split at h
      · split at h
        · obtain ⟨⟨-, hne, hname⟩, rfl⟩ := sniHostName_eq_some_iff.mp h
          rw [List.length_take, List.length_drop]
          split <;> omega
        · exact ih h
      · cases h
    · cases h

theorem pfSniExtract_pos {data s : CStr} {outMax : Nat} (hmax : 2 ≤ outMax)
    (h : pfSniExtract data outMax = some s) : 0 < s.length := by
  rw [pfSniExtract, if_neg (by omega)] at h
  obtain ⟨⟨start, extsEnd⟩, hhello, hname⟩ := Option.bind_eq_some_iff.mp h
  obtain ⟨-, -, -, hend⟩ := helloExtensions_eq_some_iff.mp hhello
  exact sniExtensions_pos hmax hend hname

theorem framed_of_found {data out out' : CStr} {outMax : Nat} {r : Int} (hmax : 2 ≤ outMax)
    (h : Memory.Found out (pfSniExtract data outMax) r out') : Framed data outMax out r out' := by
  cases hname : pfSniExtract data outMax with
  | none =>
    rw [hname] at h
    obtain ⟨rfl, rfl⟩ := h
    exact ⟨Int.le_refl 0, by omega, fun hpos => absurd hpos (Int.lt_irrefl 0), fun _ => rfl⟩
  | some name =>
    rw [hname] at h
    obtain ⟨rfl, rfl⟩ := h
    have hpos := pfSniExtract_pos hmax hname
    have hlt := pfSniExtract_length hname
    exact ⟨by omega, by omega, fun _ => ⟨name, pfSniExtract_infix hname, rfl, rfl⟩,
      fun hzero => absurd hzero (by omega)⟩

/-- For every buffer, whatever the lengths in it say. -/
theorem sni_extract_framed (data out : CStr) (outMax turns : Nat) (hmax : 2 ≤ outMax)
    (hout : outMax ≤ out.length) (hturns : data.length < turns) :
    ∃ r out', call (Memory.pfSniExtract data outMax turns) out = some (r, out') ∧
      Framed data outMax out r out' := by
  obtain ⟨r, out', hcall, hfound⟩ :=
    (Memory.meets_pfSniExtract (by omega) hout hturns).call
  exact ⟨r, out', hcall, framed_of_found hmax hfound⟩

/-- A hello with one extension, for the host `a`. -/
def smallHello : CStr :=
  [0x16, 3, 1, 0, 57, 1, 0, 0, 53, 3, 3] ++ List.replicate 32 5 ++
    [0, 0, 2, 0x13, 1, 1, 0, 0, 10, 0, 0, 0, 6, 0, 4, 0, 0, 1, 97]

theorem smallHello_framed :
    call (Memory.pfSniExtract smallHello 3 64) [9, 9, 9] = some (1, [97, 0, 9]) ∧
      ∃ r out', call (Memory.pfSniExtract smallHello 3 64) [9, 9, 9] = some (r, out') ∧
        Framed smallHello 3 [9, 9, 9] r out' :=
  ⟨by decide +kernel,
    sni_extract_framed smallHello [9, 9, 9] 3 64 (by decide) (by decide) (by decide +kernel)⟩

end Proxiflare.Guarantees.SniBounds
