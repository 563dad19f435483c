import Proxiflare.Daemon.DnsPackets

/-!
# What a malformed question leaves in the cache

The decoder writes the labels into `domain` before it knows that the name is whole, and the
callback goes on with what is there. So a name that is cut off, compressed, too long or
cut by a NUL is cached under its first labels, unless nothing of it was written or the
packet has no address to cache.
-/

namespace Proxiflare.Guarantees.MalformedNames

open Lib Lib.CString
open Proxiflare.Daemon

/-- The first question of the packet asks for `name`: labels of 1 to 63 bytes up to the root, with
dots at most `PF_DOMAIN_MAX - 1` characters. -/
def FullName (pkt name : CStr) : Prop :=
  ∃ data, dnsPayload pkt = some data ∧ 0 < u16be data 4 ∧
    ∃ ls rest, data.drop 12 = labelsWire ls ++ 0 :: rest ∧ labelsText ls = name ∧
      name.length < pfDomainMax

/-- From `d` to `d'` only slots of the name `k` change: those that had the name, and free or
expired ones that now have it. -/
def OnlyEntry (k : CStr) (d d' : Dns) : Prop :=
  ∀ (i : Nat) (e e' : DnsSlot), d.cache[i]? = some e → d'.cache[i]? = some e' → e' ≠ e →
    slotView.key e' = k ∧
      (slotView.key e = k ∨ ∃ t, d.now ≤ t ∧ t ≤ d'.now ∧ ¬ slotView.live t e)

/-- If the packet changes the cache, then only for the full name it asks for. -/
def LeavesNoTrace (rs : Ruleset) (pkt : CStr) (d : Dns) : Prop :=
  (dnsCallback rs pkt d).cache ≠ d.cache →
    ∃ name, FullName pkt name ∧ OnlyEntry (nameKey name) d (dnsCallback rs pkt d)

/-- The first label is none, or the first byte of it ends the string. -/
def unnamed : CStr → Bool
  | [] => true
  | len :: rest =>
    len = 0 || len &&& 0xC0 = 0xC0 || rest.length < len.toNat || rest.head? = some 0

/-- The condition: the full name is whole as a string, or nothing of a name is written, or a
response has no address where its answers are read. -/
def Harmless (pkt : CStr) : Prop :=
  (∃ name, FullName pkt name ∧ 0 ∉ name) ∨
    ∀ data, dnsPayload pkt = some data →
      u16be data 4 = 0 ∨ unnamed (data.drop 12) = true ∨
        128 ≤ u8 data 2 ∧ answerAddresses (u16be data 6) (readQuestion data).2 = []

/-! ## Writes for one name -/

variable {k pkt name : CStr} {rs : Ruleset} {d d' d'' : Dns}

theorem Wrote.onlyEntry {ip : CBuf 46} {ttl : Nat} (h : Wrote k ip ttl d d') : OnlyEntry k d d' := by
  obtain ⟨t, hle, hge, ⟨-, hsame⟩ | ⟨j, w, ⟨o, ho, htakes⟩, hset, hkey, -⟩⟩ := h
  · intro i e e' he he' hne
    rw [hsame, he] at he'
    exact absurd (Option.some.inj he').symm hne
  · intro i e e' he he' hne
    rw [hset] at he'
    rcases KeyedSlots.SlotView.getElem?_set_cases he' with ⟨rfl, rfl⟩ | ⟨-, hkept⟩
    · refine ⟨hkey, ?_⟩
      obtain rfl := Option.some.inj (ho.symm.trans he)
      rcases htakes with ⟨-, hsame⟩ | ⟨hdead, -⟩
      · exact .inl hsame
      · exact .inr ⟨t, hle, hge, hdead⟩
    · exact absurd (Option.some.inj (hkept.symm.trans he)) hne

theorem OnlyEntry.trans (h : OnlyEntry k d d') (h' : OnlyEntry k d' d'') (hle : d.now ≤ d'.now)
    (hle' : d'.now ≤ d''.now) : OnlyEntry k d d'' := by
  intro i e e'' he he'' hne
  obtain ⟨e', he'⟩ : ∃ e', d'.cache[i]? = some e' := by
    have hlt := (List.getElem?_eq_some_iff.mp he).1
    rw [d.size, ← d'.size] at hlt
    exact ⟨_, List.getElem?_eq_getElem hlt⟩
  by_cases hsame : e' = e
  · subst hsame
    obtain ⟨hkey, hfree⟩ := h' i _ _ he' he'' hne
    refine ⟨hkey, hfree.imp_right ?_⟩
    rintro ⟨t, ht, ht', hdead⟩
    exact ⟨t, hle.trans ht, ht', hdead⟩
  · obtain ⟨hkey, hfree⟩ := h i _ _ he he' hsame
    refine ⟨?_, hfree.imp_right ?_⟩
    · by_cases hlast : e'' = e'
      · rw [hlast]
        exact hkey
      · exact (h' i _ _ he' he'' hlast).1
    · rintro ⟨t, ht, ht', hdead⟩
      exact ⟨t, ht, ht'.trans hle', hdead⟩

theorem Updates.onlyEntry {as : List (CBuf 46 × Nat)} (h : Updates k as d d') : OnlyEntry k d d' := by
  induction h with
  | nil d =>
    intro i e e' he he' hne
    exact absurd (Option.some.inj (he'.symm.trans he)) hne
  | cons hw hus ih => exact (Wrote.onlyEntry hw).trans ih hw.le hus.le

/-! ## The name read -/

/-- A full name is what the decoder reads, up to its first NUL. -/
theorem readQuestion_fullName {data : CStr} {ls : List Label} {rest : CStr} (hasked : 0 < u16be data 4)
    (hdata : data.drop 12 = labelsWire ls ++ 0 :: rest)
    (hfits : (labelsText ls).length < pfDomainMax) :
    (readQuestion data).1 = .snprintf (labelsText ls) := by
  have hlen := length_le_labelsWire ls
  have hfuel : ls.length < (labelsWire ls ++ 0 :: rest).length + 1 := by
    rw [List.length_append]
    omega
  rw [readQuestion, hdata, if_pos hasked, dnsParseQname_labels hfuel (by rwa [foldl_labels]),
    foldl_labels]

theorem FullName.chars {data : CStr} (h : FullName pkt name) (hdata : dnsPayload pkt = some data) :
    (readQuestion data).1.chars = cstr name := by
  obtain ⟨data', hdata', hasked, ls, rest, hwire, rfl, hfits⟩ := h
  obtain rfl := Option.some.inj (hdata'.symm.trans hdata)
  rw [readQuestion_fullName hasked hwire hfits]
  have hlen := (List.takeWhile_prefix (p := (· ≠ (0 : UInt8))) (l := labelsText ls)).length_le
  exact List.take_of_length_le (by rw [cstr]; omega)

theorem nonempty_snprintf_iff (s : CStr) :
    (CBuf.snprintf s : CBuf pfDomainMax).nonempty = true ↔ s.head?.any (· ≠ 0) = true := by
  cases s with
  | nil => rfl
  | cons b s =>
    have hchars : (CBuf.snprintf (b :: s) : CBuf pfDomainMax).chars =
      (if b = 0 then [] else b :: cstr s).take 252 := by
      by_cases hb : b = 0
      · simp [CBuf.snprintf, cstr, hb]
      · simp [CBuf.snprintf, cstr, hb, pfDomainMax]
    rw [CBuf.nonempty, hchars]
    by_cases hb : b = 0
    · simp [hb]
    · simp [hb]

/-- What is written stays. -/
theorem prefix_dnsParseQname (outsz n : Nat) (ptr out : CStr) :
    out <+: (dnsParseQname outsz n ptr out).1 := by
  induction n generalizing ptr out with
  | zero => exact List.prefix_refl _
  | succ n ih =>
    cases ptr with
    | nil => exact List.prefix_refl _
    | cons len ptr =>
      rw [dnsParseQname]
      split
      · exact List.prefix_refl _
      split
      · exact List.prefix_refl _
      split
      · exact List.prefix_refl _
      split
      · exact List.prefix_refl _
      by_cases hempty : out = []
      · rw [hempty]
        exact List.nil_prefix
      · simp only [if_neg hempty]
        split
        · exact List.prefix_append _ _
        · exact ((List.prefix_append _ _).trans (List.prefix_append _ _)).trans (ih _ _)

theorem length_of_not_pointer :
    ∀ i : Fin 256, UInt8.ofNat i.val &&& 0xC0 ≠ 0xC0 → i.val < 192 := by
  decide +kernel

/-- Whether the decoder writes anything that is not empty is decided by the first label. -/
theorem head_dnsParseQname (n : Nat) (ptr : CStr) :
    (dnsParseQname pfDomainMax (n + 1) ptr []).1.head?.any (· ≠ 0) = true ↔ unnamed ptr = false := by
  cases ptr with
  | nil => simp [dnsParseQname, unnamed]
  | cons len rest =>
    rw [dnsParseQname, unnamed]
    split
    · next hpointer => simp [hpointer]
    next hpointer =>
    split
    · next hroot => simp [hroot]
    next hroot =>
    split
    · next hover => simp [hover]
    next hfits =>
    have hshort : len.toNat < 192 :=
      length_of_not_pointer ⟨len.toNat, len.toNat_lt⟩ (by rwa [UInt8.ofNat_toNat])
    rw [if_neg (by simp)]
    simp only [if_true, List.length_nil, Nat.zero_add, List.nil_append]
    rw [if_neg (by rw [pfDomainMax]; omega)]
    have hpos : 0 < len.toNat := Nat.pos_of_ne_zero fun hz => hroot (UInt8.toNat_inj.mp hz)
    cases rest with
    | nil => exact absurd hpos (by simpa using hfits)
    | cons b rest =>
      obtain ⟨k, hk⟩ := Nat.exists_eq_succ_of_ne_zero (Nat.ne_of_gt hpos)
      obtain ⟨more, hmore⟩ := prefix_dnsParseQname pfDomainMax n ((b :: rest).drop len.toNat)
        ((b :: rest).take len.toNat)
      rw [← hmore, hk, List.take_succ_cons, List.cons_append, List.head?_cons]
      have hlong : k ≤ rest.length := by
        rw [hk, List.length_cons] at hfits
        omega
      simp [hpointer, hroot, hlong]

theorem readQuestion_nonempty_iff (data : CStr) :
    (readQuestion data).1.nonempty = true ↔
      0 < u16be data 4 ∧ unnamed (data.drop 12) = false := by
  rw [readQuestion, nonempty_snprintf_iff]
  split
  · next hasked => rw [head_dnsParseQname, and_iff_right hasked]
  · next hasked => exact iff_of_false (by simp) fun h => hasked h.1

theorem readDns_eq (data : CStr) (hdata : dnsPayload pkt = some data) :
    readDns pkt = if 0 < u16be data 4 ∧ unnamed (data.drop 12) = false then
      some ⟨(readQuestion data).1, 128 ≤ u8 data 2,
        if 128 ≤ u8 data 2 then answerAddresses (u16be data 6) (readQuestion data).2 else []⟩
      else none := by
  rw [readDns, hdata, Option.bind_some]
  simp only [readMessage, decide_eq_true_eq]
  by_cases hname : (readQuestion data).1.nonempty = true
  · rw [if_pos ((readQuestion_nonempty_iff data).mp hname), if_pos hname]
  · rw [if_neg fun h => hname ((readQuestion_nonempty_iff data).mpr h), if_neg hname]

/-- What is not harmless is read, is written and has no full name to answer for. -/
theorem readDns_of_not_harmless (h : ¬ Harmless pkt) :
    ∃ m, readDns pkt = some m ∧ m.writes ≠ [] ∧
      ∀ name, FullName pkt name → 0 ∈ name ∧ m.domain.chars = cstr name := by
  simp only [Harmless, not_or, not_forall, not_exists, not_and] at h
  obtain ⟨hnames, data, hdata, hasked, hnamed, hanswers⟩ := h
  have hread := readDns_eq data hdata
  rw [if_pos ⟨Nat.pos_of_ne_zero hasked, by simpa using hnamed⟩] at hread
  refine ⟨_, hread, ?_, fun name hname => ⟨?_, hname.chars hdata⟩⟩
  · rw [DnsMessage.writes]
    by_cases hresponse : 128 ≤ u8 data 2
    · simp only [hresponse, decide_true, if_true]
      exact hanswers hresponse
    · simp [hresponse]
  · exact not_not.mp (hnames name hname)

/-- Some cache shows it: an empty one, with a clock that stands still. -/
theorem traces_of_not_harmless (h : ¬ Harmless pkt) :
    ¬ LeavesNoTrace [] pkt (.start 0) := by
  obtain ⟨m, hread, hwrites, hname⟩ := readDns_of_not_harmless h
  have hlast := List.getLast?_eq_some_getLast hwrites
  obtain ⟨i, ⟨e, hi, hkey, hused, -⟩, -⟩ :=
    (dnsCallback_updates [] hread (.start 0)).binds (unique_start 0) (room_start 0 _ _) hlast
  have hzero : (Dns.start 0).cache[i]? = some .zero := by
    have hlt := (List.getElem?_eq_some_iff.mp hi).1
    rw [Dns.size] at hlt
    exact List.getElem?_replicate_of_lt hlt
  have hne : e ≠ .zero := by
    rintro rfl
    cases hused
  intro hleaves
  obtain ⟨name, hfull, honly⟩ := hleaves fun hsame => by
    rw [hsame, hzero] at hi
    exact hne (Option.some.inj hi).symm
  obtain ⟨hnul, hchars⟩ := hname name hfull
  have hkeys := hkey.symm.trans (honly i _ _ hzero hi hne).1
  -- a name with a NUL is longer than what is stored of it
  have hlen := congrArg List.length hkeys
  rw [hchars, nameKey, nameKey, List.length_map, List.length_map] at hlen
  have hpre : cstr name <+: name := List.takeWhile_prefix _
  rw [← hpre.eq_of_length hlen] at hnul
  exact cstr_noNul _ hnul

theorem leavesNoTrace_of_harmless (h : Harmless pkt) (rs : Ruleset) (d : Dns) :
    LeavesNoTrace rs pkt d := by
  intro hchanged
  cases hread : readDns pkt with
  | none =>
    rw [dnsCallback, hread] at hchanged
    exact absurd rfl hchanged
  | some m =>
    have hupdates := dnsCallback_updates rs hread d
    obtain ⟨data, hdata, -⟩ := Option.bind_eq_some_iff.mp hread
    rw [readDns_eq data hdata] at hread
    split at hread
    · next hnamed =>
      obtain rfl := Option.some.inj hread
      rcases h with ⟨name, hname, hnul⟩ | h
      · refine ⟨name, hname, ?_⟩
        have honly := Updates.onlyEntry hupdates
        rw [hname.chars hdata, cstr_of_noNul hnul] at honly
        exact honly
      · rcases h data hdata with hasked | hunnamed | ⟨hresponse, hanswers⟩
        · omega
        · rw [hnamed.2] at hunnamed
          cases hunnamed
        · -- nothing is written
          have hnone : DnsMessage.writes ⟨(readQuestion data).1, 128 ≤ u8 data 2,
              if 128 ≤ u8 data 2 then answerAddresses (u16be data 6) (readQuestion data).2
              else []⟩ = [] := by
            rw [DnsMessage.writes, if_pos (decide_eq_true hresponse)]
            exact (if_pos hresponse).trans hanswers
          rw [hnone] at hupdates
          generalize dnsCallback rs pkt d = d' at hupdates hchanged
          cases hupdates
          exact absurd rfl hchanged
    · cases hread

/-- For every packet: whatever the rules and the cache are. -/
theorem leaves_no_trace_iff (pkt : CStr) :
    (∀ rs d, LeavesNoTrace rs pkt d) ↔ Harmless pkt := by
  constructor
  · intro hnone
    by_contra h
    exact traces_of_not_harmless h (hnone [] (.start 0))
  · exact fun h rs d => leavesNoTrace_of_harmless h rs d

/-- A query that ends behind the first label of its name, `bank`. -/
def cutOffQuery : CStr :=
  [0x45, 0, 0, 0, 0, 0, 0, 0, 64, 17] ++ List.replicate 18 0 ++
    [1, 2, 1, 0, 0, 1, 0, 0, 0, 0, 0, 0, 4, 98, 97, 110, 107]

theorem cutOffQuery_not_harmless : ¬ Harmless cutOffQuery := by
  have hdata : dnsPayload cutOffQuery =
      some [1, 2, 1, 0, 0, 1, 0, 0, 0, 0, 0, 0, 4, 98, 97, 110, 107] := by decide +kernel
  rintro (⟨name, ⟨data, hdata', -, ls, rest, hwire, -⟩, -⟩ | h)
  · -- a whole name would have its root
    obtain rfl := Option.some.inj (hdata.symm.trans hdata')
    have hroot : (0 : UInt8) ∈ labelsWire ls ++ 0 :: rest :=
      List.mem_append_right _ List.mem_cons_self
    rw [← hwire] at hroot
    exact absurd hroot (by decide)
  · rcases h _ hdata with hnone | hunnamed | ⟨hresponse, -⟩
    · exact absurd hnone (by decide)
    · exact absurd hunnamed (by decide)
    · exact absurd hresponse (by decide)

theorem cut_off_name_is_cached :
    (readDns cutOffQuery).map (fun m => m.domain.chars) = some (lit "bank") ∧
      ¬ LeavesNoTrace [] cutOffQuery (.start 0) :=
  ⟨by decide +kernel, traces_of_not_harmless cutOffQuery_not_harmless⟩

end Proxiflare.Guarantees.MalformedNames
