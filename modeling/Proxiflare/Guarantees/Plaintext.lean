import Proxiflare.Daemon.RelayEvents
import Proxiflare.Lib.Runs
import Proxiflare.Guarantees.ByteStream

/-!
# Plaintext left inside an SSL object

A relay call takes one `PF_BUF_SIZE` piece from each side and is triggered by the
kernel queues alone. A record longer than the buffer leaves a decrypted remainder
that no later event may announce.
-/

namespace Proxiflare.Guarantees.Plaintext

open Lib.CString Lib.Runs
open Proxiflare.Daemon

/-- When neither descriptor is readable, neither SSL object holds decrypted bytes. -/
def NoneStranded (s : TlsWorld) : Prop :=
  s.client.readable = false → s.server.readable = false → s.client.rest = [] ∧ s.server.rest = []

/-- The peers send records of the lengths in `L` only. -/
def recordLengths (L : Nat → Prop) (_ : TlsWorld) : TlsEvent → Prop
  | .clientRecord r => L r.length
  | .serverRecord r => L r.length
  | .relay => True

/-! ## Records that fit the buffer -/

/-- Nothing is decrypted ahead, and the queued records fit one read. -/
def Fits (t : TlsSide) : Prop := t.rest = [] ∧ ∀ r ∈ t.queue, r.length ≤ pfBufSize

theorem Fits.sslRead {t : TlsSide} (h : Fits t) : Fits (sslRead t).2 := by
  obtain ⟨hrest, hqueue⟩ := h
  unfold Daemon.sslRead
  rw [if_neg (by simp [hrest])]
  split
  · exact ⟨hrest, hqueue⟩
  · next r queue heq =>
    rw [heq] at hqueue
    obtain ⟨hr, hq⟩ := List.forall_mem_cons.mp hqueue
    exact ⟨List.drop_eq_nil_of_le hr, hq⟩

theorem Fits.enqueue {t : TlsSide} (h : Fits t) {r : CStr} (hr : r.length ≤ pfBufSize) :
    Fits { t with queue := t.queue ++ [r] } := by
  refine ⟨h.1, fun r' hr' => ?_⟩
  rcases List.mem_append.mp hr' with hmem | hmem
  · exact h.2 r' hmem
  · obtain rfl := List.mem_singleton.mp hmem
    exact hr

theorem recordOk_length {r : CStr} (h : recordOk r = true) :
    1 ≤ r.length ∧ r.length ≤ tlsRecordMax := by
  simpa [recordOk] using h

theorem fits_step {L : Nat → Prop} (hL : ∀ n, L n → 1 ≤ n → n ≤ tlsRecordMax → n ≤ pfBufSize)
    {s s' : TlsWorld} {e : TlsEvent} (inv : Fits s.client ∧ Fits s.server)
    (hg : recordLengths L s e) (hs : tlsStep s e = some s') : Fits s'.client ∧ Fits s'.server := by
  cases e with
  | clientRecord r =>
    simp only [tlsStep] at hs
    split at hs
    · next hok =>
      obtain rfl := Option.some.inj hs
      obtain ⟨h1, h2⟩ := recordOk_length hok
      exact ⟨inv.1.enqueue (hL _ hg h1 h2), inv.2⟩
    · cases hs
  | serverRecord r =>
    simp only [tlsStep] at hs
    split at hs
    · next hok =>
      obtain rfl := Option.some.inj hs
      obtain ⟨h1, h2⟩ := recordOk_length hok
      exact ⟨inv.1, inv.2.enqueue (hL _ hg h1 h2)⟩
    · cases hs
  | relay =>
    simp only [tlsStep] at hs
    split at hs
    · obtain rfl := Option.some.inj hs
      refine ⟨inv.1.sslRead, ?_⟩
      rcases tlsRelay_server s with hserver | hserver <;> rw [hserver]
      · exact inv.2.sslRead
      · exact inv.2
    · cases hs

/-! ## A record that does not -/

/-- A longer record from the client, read by one call, leaves its tail behind. -/
theorem long_record_strands {s : TlsWorld} {r : CStr} (hstart : TlsStart s)
    (hok : recordOk r = true) (hlong : pfBufSize < r.length) :
    ∃ s', run tlsStep s [.clientRecord r, .relay] = some s' ∧ ¬ NoneStranded s' := by
  obtain ⟨hact, -, -, -, -, -, hclient, hserver⟩ := hstart
  let t : TlsWorld := { s with client := ⟨[r], []⟩ }
  have hfirst : tlsStep s (.clientRecord r) = some t := by
    simp only [tlsStep, hok, if_true, hclient]
    rfl
  have hready : (t.conn.active && (t.client.readable || t.server.readable)) = true := by
    simp [t, hact, TlsSide.readable]
  have hsecond : tlsStep t .relay = some (tlsRelay t) := by
    simp only [tlsStep]
    rw [if_pos hready]
  refine ⟨tlsRelay t, by simp [hfirst, hsecond], fun hnone => ?_⟩
  have hcl : (tlsRelay t).client = ⟨[], r.drop pfBufSize⟩ := rfl
  have hsv : (tlsRelay t).server = ⟨[], []⟩ := by
    have ht : t.server = ⟨[], []⟩ := hserver
    rcases tlsRelay_server t with h | h <;> rw [h, ht]
    rfl
  have hempty := (hnone (by rw [hcl]; rfl) (by rw [hsv]; rfl)).1
  rw [hcl] at hempty
  have hle := List.drop_eq_nil_iff.mp hempty
  omega

/-- An intercepted connection right after its two handshakes. -/
def tlsPair : TlsWorld :=
  ⟨{ ByteStream.newPair with inspect := true, clientSsl := true, serverSsl := true },
    ⟨[], []⟩, ⟨[], []⟩⟩

theorem tlsPair_start : TlsStart tlsPair := ⟨rfl, by decide, by decide, rfl, rfl, rfl, rfl, rfl⟩

theorem long_length_strands {L : Nat → Prop} {n : Nat} (hL : L n) (h1 : 1 ≤ n)
    (hmax : n ≤ tlsRecordMax) (hlong : pfBufSize < n) :
    ∃ s, Reach tlsStep (recordLengths L) TlsStart s ∧ ¬ NoneStranded s := by
  have hlen : (List.replicate n (0 : UInt8)).length = n := List.length_replicate
  have hok : recordOk (List.replicate n 0) = true := by simp [recordOk, hlen, h1, hmax]
  obtain ⟨s, hrun, hstranded⟩ := long_record_strands tlsPair_start hok (by rw [hlen]; exact hlong)
  refine ⟨s, (Reach.start tlsPair_start).run (fun t l hl => ?_) hrun, hstranded⟩
  simp only [List.mem_cons, List.not_mem_nil, or_false] at hl
  rcases hl with rfl | rfl
  · show L (List.replicate n (0 : UInt8)).length
    rw [hlen]
    exact hL
  · trivial

/-- No plaintext is ever stranded exactly when no record is longer than the relay's buffer. -/
theorem none_stranded_iff_records_fit (L : Nat → Prop) :
    (∀ s, Reach tlsStep (recordLengths L) TlsStart s → NoneStranded s) ↔
      ∀ n, L n → 1 ≤ n → n ≤ tlsRecordMax → n ≤ pfBufSize := by
  constructor
  · intro h n hL h1 hmax
    by_contra hlong
    obtain ⟨s, hr, hstranded⟩ := long_length_strands hL h1 hmax (not_le.mp hlong)
    exact hstranded (h s hr)
  · intro hL s hr
    have inv : Fits s.client ∧ Fits s.server := by
      refine hr.invariant (fun s hs => ?_) fun _ _ _ => fits_step hL
      obtain ⟨-, -, -, -, -, -, hclient, hserver⟩ := hs
      rw [hclient, hserver]
      exact ⟨⟨rfl, by simp⟩, ⟨rfl, by simp⟩⟩
    exact fun _ _ => ⟨inv.1.1, inv.2.1⟩

/-- A full-size TLS record is a counterexample. -/
theorem full_record_strands :
    ∃ s, Reach tlsStep (recordLengths fun n => n = tlsRecordMax) TlsStart s ∧ ¬ NoneStranded s :=
  long_length_strands rfl (by decide) le_rfl (by decide)

end Proxiflare.Guarantees.Plaintext
