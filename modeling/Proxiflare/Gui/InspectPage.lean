import Proxiflare.Daemon.CaptureRing
import Proxiflare.Gui.DaemonClient

/-!
# The poll of the inspect page

`poll` of `gui/src/pages/Inspect.tsx` with `api.inspectList` (`gui/src/lib/api.ts`), run
against the capture ring. A poll here is one whose call is answered; others change
nothing. The numbers of JavaScript are the doubles of the daemon.
-/

namespace Proxiflare.Gui

open Lib.CString
open Proxiflare.Daemon

variable {ν : Type} (d : Doubles ν)

/-- `raw?.result ?? raw`, and nothing unless that is an array. -/
def apiInspectList (raw : Cjson ν) : List (Cjson ν) :=
  match (get raw (lit "result")).getD raw with
  | .arr entries => entries
  | _ => []

/-- `inspect_list` with `limit` 500. -/
def inspectListParams (sinceSeq : ν) : Cjson ν :=
  .obj [(lit "since_seq", .num sinceSeq), (lit "limit", .num (d.ofInt 500))]

/-- What `api.inspectList` returns while the daemon holds `s`. -/
def fetchEntries (s : Captures ν) (sinceSeq : ν) : List (Cjson ν) :=
  match unwrapResponse
      (.obj [(lit "result", inspectList d s (some (inspectListParams d sinceSeq)))]) with
  | .ok raw => apiInspectList raw
  | .error _ => []

/-- `e.seq || 0`. -/
def entrySeq (entry : Cjson ν) : ν :=
  match get entry (lit "seq") with
  | some seq => seq.valuedouble d
  | none => d.ofInt 0

/-- `Math.min(...)`; never called without a number. -/
def mathMin : List ν → ν
  | [] => d.ofInt 0
  | v :: vs => vs.foldl (fun a b => if d.lt b a then b else a) v

def mathMax : List ν → ν
  | [] => d.ofInt 0
  | v :: vs => vs.foldl (fun a b => if d.lt a b then b else a) v

/-- `seqRef.current` and `entries`. -/
structure InspectPage (ν : Type) where
  seqRef : ν
  entries : List (Cjson ν)

def InspectPage.start : InspectPage ν := ⟨d.ofInt 0, []⟩

/-- `merged.slice(-2000)`. -/
def capEntries (merged : List (Cjson ν)) : List (Cjson ν) := merged.drop (merged.length - 2000)

/-- The entries returned are taken for those of a restarted daemon if one has a smaller number
than the last one seen. -/
def InspectPage.poll (page : InspectPage ν) (raw : List (Cjson ν)) : InspectPage ν :=
  if raw.isEmpty then page
  else
    let minSeq := mathMin d (raw.map (entrySeq d))
    let maxSeq := mathMax d (raw.map (entrySeq d))
    if d.lt (d.ofInt 0) page.seqRef && d.lt minSeq page.seqRef then ⟨maxSeq, raw⟩
    else ⟨if d.lt page.seqRef maxSeq then maxSeq else page.seqRef, capEntries (page.entries ++ raw)⟩

/-! ## What a poll fetches -/

variable {d} {s : Captures ν} {kept : List (Cjson ν)} {c : Nat}

theorem getItem_sinceSeq (v : ν) :
    (inspectListParams d v).getItemAnyCase (lit "since_seq") = some (.num v) := by
  have hkey : strcaseeq (cstr (lit "since_seq")) (lit "since_seq") = true := by decide
  simp only [inspectListParams, Cjson.getItemAnyCase, List.find?_cons_of_pos, hkey, Option.map_some]

theorem getItem_limit (v : ν) :
    (inspectListParams d v).getItemAnyCase (lit "limit") = some (.num (d.ofInt 500)) := by
  have hother : strcaseeq (cstr (lit "since_seq")) (lit "limit") = false := by decide
  have hkey : strcaseeq (cstr (lit "limit")) (lit "limit") = true := by decide
  simp only [inspectListParams, Cjson.getItemAnyCase, List.find?_cons, hother, hkey, Option.map_some]

/-- The newest entries after the cursor, at most 500 of them. -/
theorem fetchEntries_eq (hd : d.ExactInts) (hc : c < 2 ^ 31) :
    fetchEntries d s (d.ofInt c) =
      ((((s.inspectRing.oldestFirst pfInspectRingSize).reverse.filter
        (newer d c)).take 500).map slim).reverse := by
  have hsince : paramInt d (some (inspectListParams d (d.ofInt c))) "since_seq" 0 = c := by
    unfold paramInt
    rw [Option.bind_some, getItem_sinceSeq]
    exact hd.toInt c hc
  have hlimit : paramInt d (some (inspectListParams d (d.ofInt c))) "limit" 500 = 500 := by
    unfold paramInt
    rw [Option.bind_some, getItem_limit]
    exact hd.toInt 500 (by decide)
  unfold fetchEntries inspectList
  rw [hsince, hlimit]
  rfl

theorem newer_numbered (hd : d.ExactInts) {n : Nat} {e : Cjson ν} (hc : c < 2 ^ 31)
    (hn : n < 2 ^ 31) (he : Numbered d n e) : newer d c e = decide (c < n) := by
  unfold newer
  rw [he]
  exact hd.lt c n hc hn

/-- The summary keeps the number. -/
theorem entrySeq_slim {n : Nat} {e : Cjson ν} (he : Numbered d n e) :
    entrySeq d (slim e) = d.ofInt n := by
  unfold entrySeq slim slimKeys
  rw [List.filterMap_cons, he]
  rfl

variable (hd : d.ExactInts) (h : s.Numbering d kept) (hlen : kept.length < 2 ^ 31)
include h

theorem mem_ring {e : Cjson ν} (he : e ∈ s.inspectRing.oldestFirst pfInspectRingSize) :
    ∃ n, 0 < n ∧ n ≤ kept.length ∧ Numbered d n e := by
  rw [h.ring.oldestFirst] at he
  obtain ⟨i, hi⟩ := List.mem_iff_getElem?.mp (List.mem_of_mem_drop he)
  have hlt := (List.getElem?_eq_some_iff.mp hi).1
  exact ⟨i + 1, Nat.succ_pos i, hlt, h.numbered i e hi⟩

/-- The newest entry is the last of the ring. -/
theorem ring_last (hpos : 0 < kept.length) :
    ∃ before e, s.inspectRing.oldestFirst pfInspectRingSize = before ++ [e] ∧
      Numbered d kept.length e := by
  have hne : kept ≠ [] := List.ne_nil_of_length_pos hpos
  have hsplit := List.dropLast_concat_getLast hne
  have hlast : kept[kept.length - 1]? = some (kept.getLast hne) :=
    (List.getLast?_eq_getElem? (l := kept)).symm.trans (List.getLast?_eq_some_getLast hne)
  refine ⟨kept.dropLast.drop (kept.length - pfInspectRingSize), kept.getLast hne, ?_, ?_⟩
  · have hle : kept.length - pfInspectRingSize ≤ kept.dropLast.length := by
      rw [List.length_dropLast]
      unfold pfInspectRingSize
      omega
    rw [h.ring.oldestFirst, ← List.drop_append_of_le_length hle, hsplit]
  · have hnum := h.numbered _ _ hlast
    rwa [Nat.sub_add_cancel hpos] at hnum

include hd

/-- Nothing, as long as the numbers have not passed the cursor. -/
theorem fetchEntries_old (hc : c < 2 ^ 31) (hold : kept.length ≤ c) :
    fetchEntries d s (d.ofInt c) = [] := by
  have hnone : (s.inspectRing.oldestFirst pfInspectRingSize).reverse.filter (newer d c) = [] := by
    rw [List.filter_eq_nil_iff]
    intro e he
    obtain ⟨n, -, hn, hnum⟩ := mem_ring h (List.mem_reverse.mp he)
    rw [newer_numbered hd hc (by omega) hnum]
    simpa using Nat.le_trans hn hold
  rw [fetchEntries_eq hd hc, hnone]
  rfl

include hlen

/-- From then on the newest entry comes last, and only entries after the cursor before it. -/
theorem fetchEntries_new (hnew : c < kept.length) :
    ∃ ns : List Nat, (fetchEntries d s (d.ofInt c)).map (entrySeq d) =
        (ns ++ [kept.length]).map (fun n : Nat => d.ofInt n) ∧
      ∀ n ∈ ns, c < n ∧ n ≤ kept.length := by
  have hc : c < 2 ^ 31 := by omega
  obtain ⟨before, e, hring, hnum⟩ := ring_last h (by omega)
  have hpass : newer d c e = true := by
    rw [newer_numbered hd hc hlen hnum]
    exact decide_eq_true hnew
  have hfetched : fetchEntries d s (d.ofInt c) =
      (((before.reverse.filter (newer d c)).take 499).map slim).reverse ++ [slim e] := by
    rw [fetchEntries_eq hd hc, hring, List.reverse_append, List.reverse_singleton,
      List.singleton_append, List.filter_cons_of_pos hpass, List.take_succ_cons, List.map_cons,
      List.reverse_cons]
  have hbefore : ∀ l : List (Cjson ν), (∀ o ∈ l, o ∈ before ∧ newer d c o = true) →
      ∃ ns : List Nat, (l.map slim).map (entrySeq d) = ns.map (fun n : Nat => d.ofInt n) ∧
        ∀ n ∈ ns, c < n ∧ n ≤ kept.length := by
    intro l hl
    induction l with
    | nil => exact ⟨[], rfl, by simp⟩
    | cons o os ih =>
      obtain ⟨ns, hns, hrange⟩ := ih fun p hp => hl p (List.mem_cons_of_mem o hp)
      obtain ⟨hmem, hnewer⟩ := hl o (List.mem_cons_self ..)
      obtain ⟨n, -, hle, hn⟩ := mem_ring h (hring ▸ List.mem_append_left [e] hmem)
      rw [newer_numbered hd hc (by omega) hn, decide_eq_true_eq] at hnewer
      refine ⟨n :: ns, ?_, List.forall_mem_cons.mpr ⟨⟨hnewer, hle⟩, hrange⟩⟩
      rw [List.map_cons, List.map_cons, List.map_cons, hns, entrySeq_slim hn]
  obtain ⟨ns, hns, hrange⟩ := hbefore ((before.reverse.filter (newer d c)).take 499) fun o ho => by
    obtain ⟨hmem, hnewer⟩ := List.mem_filter.mp (List.mem_of_mem_take ho)
    exact ⟨List.mem_reverse.mp hmem, hnewer⟩
  refine ⟨ns.reverse, ?_, fun n hn => hrange n (List.mem_reverse.mp hn)⟩
  rw [hfetched, List.map_append, List.map_append, List.map_reverse, List.map_reverse, hns]
  rw [List.map_singleton, List.map_singleton, entrySeq_slim hnum]

omit h hlen

/-! ## What the page makes of it -/

omit hd in
/-- A fold that keeps one of two values ends with one of all. -/
theorem foldl_pick_mem (p : ν → ν → Bool) (v : ν) (vs : List ν) :
    vs.foldl (fun a b => if p a b then b else a) v ∈ v :: vs := by
  induction vs generalizing v with
  | nil => exact List.mem_cons_self ..
  | cons w ws ih =>
    have hrest := ih (if p v w then w else v)
    rw [List.foldl_cons]
    by_cases hp : p v w = true
    · rw [if_pos hp] at hrest ⊢
      exact List.mem_cons_of_mem v hrest
    · rw [if_neg hp] at hrest ⊢
      rcases List.mem_cons.mp hrest with heq | hin
      · rw [heq]
        exact List.mem_cons_self ..
      · exact List.mem_cons_of_mem v (List.mem_cons_of_mem w hin)

omit hd in
theorem mathMin_mem {vs : List ν} (hne : vs ≠ []) : mathMin d vs ∈ vs := by
  cases vs with
  | nil => exact absurd rfl hne
  | cons v vs => exact foldl_pick_mem (fun a b => d.lt b a) v vs

theorem foldl_max {k m : Nat} (ks : List Nat) (hm : m < 2 ^ 31) (hk : k ≤ m)
    (hks : ∀ j ∈ ks, j ≤ m) (hin : m = k ∨ m ∈ ks) :
    (ks.map fun n : Nat => d.ofInt n).foldl (fun a b => if d.lt a b then b else a) (d.ofInt k) =
      d.ofInt m := by
  induction ks generalizing k with
  | nil =>
    rw [hin.resolve_right (by simp)]
    rfl
  | cons j js ih =>
    obtain ⟨hj, hjs⟩ := List.forall_mem_cons.mp hks
    rw [List.map_cons, List.foldl_cons, hd.lt k j (by omega) (by omega)]
    by_cases hlt : k < j
    · rw [if_pos (decide_eq_true hlt)]
      refine ih hj hjs ?_
      rcases hin with rfl | hin
      · omega
      · exact List.mem_cons.mp hin
    · rw [if_neg (by simpa using hlt)]
      refine ih hk hjs ?_
      rcases hin with hin | hin
      · exact .inl hin
      · rcases List.mem_cons.mp hin with rfl | hin
        · exact .inl (by omega)
        · exact .inr hin

theorem mathMax_eq {ks : List Nat} {m : Nat} (hm : m < 2 ^ 31) (hin : m ∈ ks)
    (hks : ∀ j ∈ ks, j ≤ m) : mathMax d (ks.map fun n : Nat => d.ofInt n) = d.ofInt m := by
  cases ks with
  | nil => cases hin
  | cons k ks =>
    obtain ⟨hk, hks⟩ := List.forall_mem_cons.mp hks
    exact foldl_max hd ks hm hk hks (List.mem_cons.mp hin)

/-- Entries after the cursor are appended, and the cursor moves to the newest of them. -/
theorem poll_newer {page : InspectPage ν} {raw : List (Cjson ν)} {ns : List Nat} {n : Nat}
    (hpage : page.seqRef = d.ofInt c) (hn : n < 2 ^ 31) (hc : c < n)
    (hraw : raw.map (entrySeq d) = (ns ++ [n]).map fun n : Nat => d.ofInt n)
    (hrange : ∀ k ∈ ns, c < k ∧ k ≤ n) :
    page.poll d raw = ⟨d.ofInt n, capEntries (page.entries ++ raw)⟩ := by
  have hall : ∀ k ∈ ns ++ [n], c < k ∧ k ≤ n :=
    List.forall_mem_append.mpr ⟨hrange, List.forall_mem_singleton.mpr ⟨hc, Nat.le_refl n⟩⟩
  have hne : raw.isEmpty = false := by
    cases raw with
    | nil => simp at hraw
    | cons e es => rfl
  have hmax : mathMax d (raw.map (entrySeq d)) = d.ofInt n := by
    rw [hraw]
    exact mathMax_eq hd hn (by simp) fun k hk => (hall k hk).2
  have hmin : d.lt (mathMin d (raw.map (entrySeq d))) page.seqRef = false := by
    have hmem : mathMin d (raw.map (entrySeq d)) ∈ raw.map (entrySeq d) := by
      apply mathMin_mem
      rw [hraw]
      simp
    rw [hraw] at hmem
    obtain ⟨k, hk, hmin⟩ := List.mem_map.mp hmem
    obtain ⟨hck, hkn⟩ := hall k hk
    rw [hraw, ← hmin, hpage, hd.lt k c (by omega) (by omega)]
    exact decide_eq_false (by omega)
  have hadvance : d.lt page.seqRef (d.ofInt n) = true := by
    rw [hpage, hd.lt c n (by omega) hn]
    exact decide_eq_true hc
  unfold InspectPage.poll
  simp only [hne, hmin, hmax, hadvance, Bool.and_false, Bool.false_eq_true, if_false, if_true]

end Proxiflare.Gui
