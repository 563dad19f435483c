import Proxiflare.Daemon.DnsResolver
import Proxiflare.Lib.Lines
import Proxiflare.Lib.Runs

/-!
# Which question a cached answer was for

The cache knows a question by the dotted text of its name, as a C string, and its
type. Two names without a dot or a zero byte inside a label have the same text only
if they agree label by label; the class is no part of the key.
-/

namespace Proxiflare.Guarantees.ResolverKeys

open Lib.CString Lib Lib.Lines
open Proxiflare.Daemon

/-! ## The question of a query -/

structure Question where
  labels : List CStr
  qtype : UInt16
  qclass : UInt16
  deriving DecidableEq

/-- The labels of a name and what follows it. -/
def wireLabels : Nat → CStr → Option (List CStr × CStr)
  | 0, _ => none
  | _ + 1, [] => none
  | n + 1, lb :: q =>
    if lb = 0 then some ([], q)
    else if lb &&& 0xC0 ≠ 0 ∨ q.length < lb.toNat then none
    else (wireLabels n (q.drop lb.toNat)).map fun p => (q.take lb.toNat :: p.1, p.2)

def question (q : CStr) : Option Question :=
  (wireLabels q.length (q.drop 12)).bind fun p =>
    if p.2.length < 4 then none
    else some ⟨p.1, UInt16.ofNat (u16be p.2 0), UInt16.ofNat (u16be p.2 2)⟩

/-- Label by label, up to ASCII case. -/
def SameName (a b : List CStr) : Prop := a.map (List.map tolower) = b.map (List.map tolower)

instance (a b : List CStr) : Decidable (SameName a b) :=
  inferInstanceAs (Decidable (a.map (List.map tolower) = b.map (List.map tolower)))

/-- No label holds a dot or a zero byte. -/
def Plain (labels : List CStr) : Prop := ∀ l ∈ labels, (46 : UInt8) ∉ l ∧ (0 : UInt8) ∉ l

/-! ## The text of a name -/

def dotted (labels : List CStr) : CStr := labels.flatMap fun l => l.map tolower ++ [46]

/-- The name `extract_query_key` returns. -/
def keyText (labels : List CStr) : CStr := cstr (stripDot (dotted labels))

theorem queryName_labels {cap n : Nat} {q name name' rest : CStr}
    (h : queryName cap n q name = some (name', rest)) :
    ∃ ls, wireLabels n q = some (ls, rest) ∧ name' = name ++ dotted ls := by
  induction n generalizing q name with
  | zero => cases h
  | succ n ih =>
    cases q with
    | nil => cases h
    | cons lb q =>
      unfold queryName at h
      by_cases hzero : lb = 0
      · rw [if_pos hzero] at h
        obtain ⟨rfl, rfl⟩ := Prod.mk.inj (Option.some.inj h)
        exact ⟨[], by rw [wireLabels, if_pos hzero], (List.append_nil _).symm⟩
      · rw [if_neg hzero] at h
        split at h
        · cases h
        · next hplain =>
          split at h
          · cases h
          · next hroom =>
            obtain ⟨ls, hls, rfl⟩ := ih h
            have hok : ¬ (lb &&& 0xC0 ≠ 0 ∨ q.length < lb.toNat) :=
              fun hbad => hbad.elim hplain fun hlt => hroom (.inl hlt)
            refine ⟨q.take lb.toNat :: ls, ?_, ?_⟩
            · rw [wireLabels, if_neg hzero, if_neg hok, hls]
              rfl
            · simp [dotted]

theorem wireLabels_ne_nil {n : Nat} {q rest : CStr} {ls : List CStr}
    (h : wireLabels n q = some (ls, rest)) : ∀ l ∈ ls, l ≠ [] := by
  induction n generalizing q ls with
  | zero => cases h
  | succ n ih =>
    cases q with
    | nil => cases h
    | cons lb q =>
      unfold wireLabels at h
      split at h
      · obtain ⟨rfl, -⟩ := Prod.mk.inj (Option.some.inj h)
        exact List.forall_mem_nil _
      · next hzero =>
        split at h
        · cases h
        · next hok =>
          obtain ⟨p, hp, heq⟩ := Option.map_eq_some_iff.mp h
          obtain ⟨rfl, rfl⟩ := Prod.mk.inj heq
          intro l hl
          rcases List.mem_cons.mp hl with rfl | hl
          · have hpos : 0 < lb.toNat :=
              Nat.pos_of_ne_zero fun hz => hzero (UInt8.toNat_inj.mp hz)
            have hlen : lb.toNat ≤ q.length := Nat.le_of_not_lt fun hlt => hok (.inr hlt)
            exact List.ne_nil_of_length_pos (by rw [List.length_take_of_le hlen]; exact hpos)
          · exact ih hp l hl

/-- The key is the text and the type of the question. -/
theorem extractQueryKey_question {q name : CStr} {qtype : UInt16} {cap : Nat}
    (h : extractQueryKey q cap = some (name, qtype)) :
    ∃ u, question q = some u ∧ name = keyText u.labels ∧ qtype = u.qtype ∧ ∀ l ∈ u.labels, l ≠ [] := by
  unfold extractQueryKey at h
  split at h
  · cases h
  · obtain ⟨p, hp, h⟩ := Option.bind_eq_some_iff.mp h
    obtain ⟨ls, hls, hname⟩ := queryName_labels hp
    split at h
    · cases h
    · next hlen =>
      obtain ⟨rfl, rfl⟩ := Prod.mk.inj (Option.some.inj h)
      refine ⟨⟨ls, UInt16.ofNat (u16be p.2 0), UInt16.ofNat (u16be p.2 2)⟩, ?_, ?_, rfl,
        wireLabels_ne_nil hls⟩
      · unfold question
        rw [hls, Option.bind_some, if_neg hlen]
      · rw [hname]
        rfl

/-! ## Plain names are known by their text -/

theorem tolower_eq_self {b c : UInt8} (hc : c = 46 ∨ c = 0) (h : tolower b = c) : b = c := by
  have hdot : (tolower b ≠ 46 || b = 46) = true :=
    forall_byte (p := fun b => tolower b ≠ 46 || b = 46) (by decide +kernel) b
  have hnul : (tolower b ≠ 0 || b = 0) = true :=
    forall_byte (p := fun b => tolower b ≠ 0 || b = 0) (by decide +kernel) b
  rcases hc with rfl | rfl
  · simpa [h] using hdot
  · simpa [h] using hnul

theorem lower_notMem {l : CStr} {c : UInt8} (hc : c = 46 ∨ c = 0) (h : c ∉ l) :
    c ∉ l.map tolower := by
  intro hmem
  obtain ⟨b, hb, heq⟩ := List.mem_map.mp hmem
  exact h (tolower_eq_self hc heq ▸ hb)

theorem lines_dotted {labels : List CStr} (h : Plain labels) :
    lines 46 (dotted labels) = labels.map (List.map tolower) := by
  induction labels with
  | nil => rfl
  | cons l labels ih =>
    have hdot : (46 : UInt8) ∉ l.map tolower := lower_notMem (.inl rfl) (h l List.mem_cons_self).1
    have hcons : dotted (l :: labels) = l.map tolower ++ 46 :: dotted labels := by
      simp [dotted]
    rw [hcons, (lines_cons hdot _).1, ih fun m hm => h m (List.mem_cons_of_mem l hm)]
    rfl

theorem nul_notMem_dotted {labels : List CStr} (h : Plain labels) : (0 : UInt8) ∉ dotted labels := by
  intro hmem
  obtain ⟨l, hl, hb⟩ := List.mem_flatMap.mp hmem
  rcases List.mem_append.mp hb with hb | hb
  · exact lower_notMem (.inr rfl) (h l hl).2 hb
  · exact absurd (List.mem_singleton.mp hb) (by decide)

theorem stripDot_concat (name : CStr) : stripDot (name ++ [46]) = name := by
  unfold stripDot
  rw [List.getLast?_concat, if_pos rfl, List.dropLast_concat]

/-- The text of a name with labels ends with its last dot. -/
theorem dotted_eq {labels : List CStr} (h : labels ≠ []) :
    dotted labels = stripDot (dotted labels) ++ [46] := by
  have hlast : dotted labels =
      dotted labels.dropLast ++ (labels.getLast h).map tolower ++ [46] := by
    have hsplit := congrArg dotted (List.dropLast_append_getLast h)
    rw [← hsplit]
    simp [dotted]
  rw [hlast, stripDot_concat]

theorem stripDot_ne_nil {labels : List CStr} (h : labels ≠ []) (hne : ∀ l ∈ labels, l ≠ []) :
    stripDot (dotted labels) ≠ [] := by
  intro hnil
  have hdot := dotted_eq h
  rw [hnil] at hdot
  obtain ⟨l, labels, rfl⟩ := List.exists_cons_of_ne_nil h
  have hlen := congrArg List.length hdot
  have hpos := List.length_pos_iff.mpr (hne l List.mem_cons_self)
  simp [dotted] at hlen
  omega

theorem stripDot_inj {a b : List CStr} (ha : ∀ l ∈ a, l ≠ []) (hb : ∀ l ∈ b, l ≠ [])
    (h : stripDot (dotted a) = stripDot (dotted b)) : dotted a = dotted b := by
  by_cases hanil : a = []
  · subst hanil
    by_cases hbnil : b = []
    · rw [hbnil]
    · exact absurd h.symm (stripDot_ne_nil hbnil hb)
  · by_cases hbnil : b = []
    · subst hbnil
      exact absurd h (stripDot_ne_nil hanil ha)
    · rw [dotted_eq hanil, dotted_eq hbnil, h]

/-- Two plain names with one text agree label by label. -/
theorem sameName_of_keyText {a b : List CStr} (ha : ∀ l ∈ a, l ≠ []) (hb : ∀ l ∈ b, l ≠ [])
    (hpa : Plain a) (hpb : Plain b) (h : keyText a = keyText b) : SameName a b := by
  have hwhole : ∀ {ls : List CStr}, Plain ls → keyText ls = stripDot (dotted ls) := by
    intro ls hp
    refine cstr_of_noNul fun hnul => nul_notMem_dotted hp ?_
    unfold stripDot at hnul
    split at hnul
    · exact List.mem_of_mem_dropLast hnul
    · exact hnul
  rw [hwhole hpa, hwhole hpb] at h
  have hlines := congrArg (lines 46) (stripDot_inj ha hb h)
  rwa [lines_dotted hpa, lines_dotted hpb] at hlines

/-! ## The workers -/

def step (s : Resolver) (e : ResolverEvent) : Option Resolver := s.step e

def Reachable : Resolver → Prop := Runs.Reach step (fun _ _ => True) (· = .start)

/-- The slot holds an answer that came for a query with this key. -/
def FetchedFor (fetched : List (CStr × CStr)) (e : DnsCacheEntry) : Prop :=
  ∃ q body, (q, body) ∈ fetched ∧ extractQueryKey q 256 = some (e.name.chars, e.qtype) ∧
    2 ≤ body.length ∧ e.resp = body.drop 2

theorem FetchedFor.mono {fetched fetched' : List (CStr × CStr)} {e : DnsCacheEntry}
    (h : FetchedFor fetched e) (hsub : fetched ⊆ fetched') : FetchedFor fetched' e := by
  obtain ⟨q, body, hmem, hrest⟩ := h
  exact ⟨q, body, hsub hmem, hrest⟩

theorem snprintf_key {q name : CStr} {qtype : UInt16} (h : extractQueryKey q 256 = some (name, qtype)) :
    (CBuf.snprintf name : CBuf 256).chars = name := by
  obtain ⟨hlen, hnul⟩ := extractQueryKey_fits h
  exact CBuf.snprintf_of_fits hlen hnul

theorem fetchedFor_putAnswer {fetched : List (CStr × CStr)} {c : DnsCache} (now : Int) (q body : CStr)
    (h : ∀ e ∈ c.slots, e.resp ≠ [] → FetchedFor fetched e) :
    ∀ e ∈ (putAnswer c now q body).slots, e.resp ≠ [] → FetchedFor (fetched ++ [(q, body)]) e := by
  intro e he hne
  unfold putAnswer at he
  split at he
  · exact (h e he hne).mono (List.subset_append_left _ _)
  · next key hkey =>
    rcases WriteRing.mem_of_mem_writes he with he | he
    · obtain ⟨hname, htype, hlen, hresp, -⟩ := putEntry_some (Option.mem_toList.mp he)
      refine ⟨q, body, by simp, ?_, hlen, hresp⟩
      rw [hname, snprintf_key hkey, htype, hkey]
    · exact (h e he hne).mono (List.subset_append_left _ _)

def AllFetched (s : Resolver) : Prop := ∀ e ∈ s.cache.slots, e.resp ≠ [] → FetchedFor s.fetched e

theorem allFetched_reachable {s : Resolver} (hr : Reachable s) : AllFetched s := by
  refine Runs.Reach.invariant ?_ ?_ hr
  · rintro s rfl e he hne
    obtain rfl := List.eq_of_mem_replicate he
    exact absurd rfl hne
  · intro s event s' hinv _ hs
    cases event with
    | query now q =>
      obtain rfl := Option.some.inj hs
      split <;> exact hinv
    | answer now i body =>
      unfold step Resolver.step at hs
      dsimp only at hs
      split at hs
      · cases hs
      · next q _ =>
        split at hs
        · obtain rfl := Option.some.inj hs
          exact fetchedFor_putAnswer now q body hinv
        · cases hs
    | giveUp i =>
      unfold step Resolver.step at hs
      dsimp only at hs
      split at hs
      · obtain rfl := Option.some.inj hs
        exact hinv
      · cases hs

/-! ## What a hit answers -/

/-- The answer had come for a query with the same type and the same text; where both names are
plain, for the same name. -/
def AnswersSameKey (s : Resolver) : Prop :=
  ∀ now q out, cachedAnswer s.cache now q = some out →
    ∃ q' body u u', (q', body) ∈ s.fetched ∧
      out = idBytes (UInt16.ofNat (u16be q 0)) ++ body.drop 2 ∧
      question q = some u ∧ question q' = some u' ∧ u'.qtype = u.qtype ∧
      keyText u'.labels = keyText u.labels ∧
      (Plain u.labels → Plain u'.labels → SameName u'.labels u.labels)

/-- After every run of any number of concurrent workers. -/
theorem hits_answer_same_key (s : Resolver) (hr : Reachable s) : AnswersSameKey s := by
  intro now q out h
  obtain ⟨⟨name, qtype⟩, hkey, hlookup⟩ := Option.bind_eq_some_iff.mp h
  obtain ⟨e, hmem, ⟨-, htype, hne, hname⟩, rfl⟩ := lookupScan_some hlookup
  obtain ⟨q', body, hfetched, hkey', -, hresp⟩ := allFetched_reachable hr e hmem hne
  obtain ⟨u, hu, hutext, hutype, hulabels⟩ := extractQueryKey_question hkey
  obtain ⟨u', hu', hutext', hutype', hulabels'⟩ := extractQueryKey_question hkey'
  have htext : keyText u'.labels = keyText u.labels := by
    rw [← hutext', hname, hutext]
  refine ⟨q', body, u, u', hfetched, by rw [hresp], hu, hu', ?_, htext, ?_⟩
  · rw [← hutype', htype, hutype]
  · intro hplain hplain'
    exact sameName_of_keyText hulabels' hulabels hplain' hplain htext

/-! ## A run with three questions -/

/-- A query with id 0 for these labels. -/
def queryFor (labels : List CStr) (qtype qclass : UInt8) : CStr :=
  [0, 0, 1, 0, 0, 1, 0, 0, 0, 0, 0, 0] ++
    (labels.flatMap fun l => UInt8.ofNat l.length :: l) ++ [0, 0, qtype, 0, qclass]

def oneAnswer : List ResolverEvent :=
  [.query 0 (queryFor [lit "a", lit "b"] 1 1), .answer 1 0 [0, 0, 7]]

def answered : Resolver := ((Runs.run step .start oneAnswer).getD .start)

theorem answered_reachable : Reachable answered := by
  obtain ⟨s, hs⟩ := Option.isSome_iff_exists.mp
    (by decide +kernel : (Runs.run step .start oneAnswer).isSome = true)
  have hrun : Runs.run step .start oneAnswer = some answered := by
    rw [answered, hs, Option.getD_some]
  exact Runs.Reach.run (.start rfl) (fun _ _ _ => trivial) hrun

/-- One query answered, its answer cached. -/
theorem answered_same_key : AnswersSameKey answered := hits_answer_same_key answered answered_reachable

/-- Every cached answer to `q` had come for the same name, type and class. -/
def AnswersTheQuestion (s : Resolver) (q : CStr) : Prop :=
  ∀ now out, cachedAnswer s.cache now q = some out →
    ∃ q' body u u', (q', body) ∈ s.fetched ∧ question q = some u ∧ question q' = some u' ∧
      SameName u'.labels u.labels ∧ u'.qtype = u.qtype ∧ u'.qclass = u.qclass

theorem fetched_answered : answered.fetched = [(queryFor [lit "a", lit "b"] 1 1, [0, 0, 7])] := by
  decide +kernel

/-- The answer for `a.b` in class 1 serves a query in class 3, and one for the single label `a.b`. -/
theorem class_and_dots_ignored :
    Reachable answered ∧ ¬ AnswersTheQuestion answered (queryFor [lit "a", lit "b"] 1 3) ∧
      ¬ AnswersTheQuestion answered (queryFor [lit "a.b"] 1 1) := by
  have hasked : question (queryFor [lit "a", lit "b"] 1 1) = some ⟨[lit "a", lit "b"], 1, 1⟩ := by
    decide +kernel
  have hclass : question (queryFor [lit "a", lit "b"] 1 3) = some ⟨[lit "a", lit "b"], 1, 3⟩ := by
    decide +kernel
  have hdotted : question (queryFor [lit "a.b"] 1 1) = some ⟨[lit "a.b"], 1, 1⟩ := by
    decide +kernel
  refine ⟨answered_reachable, ?_, ?_⟩
  · intro h
    obtain ⟨q', body, u, u', hmem, hu, hu', -, -, heq⟩ := h 2 [0, 0, 7] (by decide +kernel)
    rw [fetched_answered] at hmem
    obtain ⟨rfl, rfl⟩ := Prod.mk.inj (List.mem_singleton.mp hmem)
    obtain rfl := Option.some.inj (hclass.symm.trans hu)
    obtain rfl := Option.some.inj (hasked.symm.trans hu')
    exact absurd heq (by decide)
  · intro h
    obtain ⟨q', body, u, u', hmem, hu, hu', hname, -, -⟩ := h 2 [0, 0, 7] (by decide +kernel)
    rw [fetched_answered] at hmem
    obtain ⟨rfl, rfl⟩ := Prod.mk.inj (List.mem_singleton.mp hmem)
    obtain rfl := Option.some.inj (hdotted.symm.trans hu)
    obtain rfl := Option.some.inj (hasked.symm.trans hu')
    exact absurd hname (by decide +kernel)

end Proxiflare.Guarantees.ResolverKeys
