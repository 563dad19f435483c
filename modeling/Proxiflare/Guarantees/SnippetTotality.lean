import Proxiflare.Gui.SnippetTargets
import Proxiflare.Guarantees.SnippetBodies
import Proxiflare.Lib.Utf8

/-!
# Entries that become snippets

Whatever the target is, two library functions decide whether a snippet is made: the query string
goes through `decodeURIComponent`, which throws at what is no escape, although few targets use the
result; and a body taken for binary goes through `btoa`, which throws beyond Latin-1.
-/

namespace Proxiflare.Guarantees.SnippetTotality

open Lib.CString Lib.UrlForm Lib.Utf8
open Proxiflare.Gui
open Proxiflare.Guarantees.SnippetBodies (asciiJs post)

/-! ## The condition -/

/-- Two hex digits follow every `%`. -/
def EscapesComplete (s : CStr) : Prop :=
  ∀ before after, s = before ++ 37 :: after →
    ∃ a b rest, after = a :: b :: rest ∧ (hexByte a b).isSome

/-- The escapes are complete and undone they leave UTF-8. -/
def Decodes (s : CStr) : Prop := EscapesComplete s ∧ Valid (percentDecode s)

/-- The parts of the query string that are not empty. -/
def queryParts (entry : InspectEntry) : List CStr := ((searchOf entry).tail.splitOn 38).filter (· ≠ [])

/-- Characters up to U+00FF, as UTF-8. -/
inductive Latin1 : CStr → Prop where
  | nil : Latin1 []
  | ascii {b : UInt8} {s : CStr} (hb : b < 128) (hs : Latin1 s) : Latin1 (b :: s)
  | upper {b c : UInt8} {s : CStr} (hb : b = 194 ∨ b = 195) (hs : Latin1 s) : Latin1 (b :: c :: s)

structure Writable (entry : InspectEntry) : Prop where
  names : ∀ part ∈ queryParts entry, Decodes (part.takeWhile (· ≠ 61))
  values : ∀ part ∈ queryParts entry, Decodes ((part.dropWhile (· ≠ 61)).drop 1)
  body : ∀ text, entry.body = some text → isBinaryBody text = true → Latin1 text

/-! ## The query string -/

theorem escapesComplete_nil : EscapesComplete [] := by
  intro before after h
  cases before <;> cases h

theorem escapesComplete_cons {c : UInt8} (hc : c ≠ 37) (s : CStr) :
    EscapesComplete (c :: s) ↔ EscapesComplete s := by
  constructor
  · intro h before after hs
    exact h (c :: before) after (by rw [hs, List.cons_append])
  · intro h before after hs
    cases before with
    | nil => exact absurd (List.cons.inj hs).1 hc
    | cons d before => exact h before after (List.cons.inj hs).2

theorem hexByte_ne {a b : UInt8} (h : (hexByte a b).isSome) : a ≠ 37 ∧ b ≠ 37 := by
  constructor
  · rintro rfl
    exact absurd h (by simp [hexByte, hexValue])
  · rintro rfl
    cases ha : hexValue a <;> simp [hexByte, ha, show hexValue 37 = none from rfl] at h

theorem escapesComplete_escape {a b : UInt8} (h : (hexByte a b).isSome) (s : CStr) :
    EscapesComplete (37 :: a :: b :: s) ↔ EscapesComplete s := by
  obtain ⟨ha, hb⟩ := hexByte_ne h
  have hdigits : EscapesComplete (a :: b :: s) ↔ EscapesComplete s :=
    (escapesComplete_cons ha _).trans (escapesComplete_cons hb _)
  rw [← hdigits]
  constructor
  · intro hall before after hs
    exact hall (37 :: before) after (by rw [hs, List.cons_append])
  · intro hall before after hs
    cases before with
    | nil => exact ⟨a, b, s, (List.cons.inj hs).2.symm, h⟩
    | cons d before => exact hall before after (List.cons.inj hs).2

/-- The strict reader takes exactly the texts with complete escapes, and reads them as the lenient
one does. -/
theorem percentUnescape_eq_some_iff (s t : CStr) :
    percentUnescape s = some t ↔ EscapesComplete s ∧ percentDecode s = t := by
  induction s using percentUnescape.induct generalizing t with
  | case1 => simp [percentUnescape, percentDecode, escapesComplete_nil]
  | case2 a b rest ih =>
    rw [percentUnescape, percentDecode, if_pos rfl, if_pos rfl]
    cases hx : hexByte a b with
    | none =>
      refine iff_of_false (fun h => by cases h) fun h => ?_
      obtain ⟨a', b', rest', hafter, hsome⟩ := h.1 [] (a :: b :: rest) rfl
      obtain ⟨rfl, hb⟩ := List.cons.inj hafter
      obtain ⟨rfl, -⟩ := List.cons.inj hb
      rw [hx] at hsome
      cases hsome
    | some x =>
      have hsome : (hexByte a b).isSome := by rw [hx]; rfl
      rw [escapesComplete_escape hsome]
      cases hrest : percentUnescape rest with
      | none =>
        refine iff_of_false (fun h => by cases h) fun h => ?_
        cases hrest.symm.trans ((ih _).mpr ⟨h.1, rfl⟩)
      | some u =>
        obtain ⟨hcomplete, hdecode⟩ := (ih u).mp hrest
        rw [hdecode, and_iff_right hcomplete]
        exact Option.some_inj
  | case3 s hs =>
    have hnone : percentUnescape (37 :: s) = none := by
      rw [percentUnescape, if_pos rfl]
      exact hs
    rw [hnone]
    refine iff_of_false (fun h => by cases h) fun h => ?_
    obtain ⟨a, b, rest, hafter, -⟩ := h.1 [] s rfl
    exact hs a b rest hafter
  | case4 c s hc ih =>
    have hstep : percentUnescape (c :: s) = (percentUnescape s).map (c :: ·) := by
      rw [percentUnescape.eq_def]
      exact if_neg hc
    rw [hstep, percentDecode_plain hc, escapesComplete_cons hc]
    cases hrest : percentUnescape s with
    | none =>
      refine iff_of_false (fun h => by cases h) fun h => ?_
      cases hrest.symm.trans ((ih _).mpr ⟨h.1, rfl⟩)
    | some u =>
      obtain ⟨hcomplete, hdecode⟩ := (ih u).mp hrest
      rw [hdecode, and_iff_right hcomplete]
      exact Option.some_inj

/-- `decodeURIComponent` throws exactly at the other texts. -/
theorem decodeURIComponent_isSome_iff (s : CStr) : (decodeURIComponent s).isSome ↔ Decodes s := by
  rw [decodeURIComponent, Option.isSome_filter]
  cases hread : percentUnescape s with
  | none =>
    refine iff_of_false Bool.false_ne_true fun h => ?_
    cases hread.symm.trans ((percentUnescape_eq_some_iff s _).mpr ⟨h.1, rfl⟩)
  | some t =>
    obtain ⟨hcomplete, rfl⟩ := (percentUnescape_eq_some_iff s t).mp hread
    rw [Option.any_some, validateUTF8_iff]
    exact (and_iff_right hcomplete).symm

theorem decodes_nil : Decodes [] := ⟨escapesComplete_nil, valid_nil⟩

theorem parseQueryPart_isSome_iff (part : CStr) : (parseQueryPart part).isSome ↔
    Decodes (part.takeWhile (· ≠ 61)) ∧ Decodes ((part.dropWhile (· ≠ 61)).drop 1) := by
  rw [← decodeURIComponent_isSome_iff, ← decodeURIComponent_isSome_iff, parseQueryPart]
  by_cases heq : part.contains 61 = true
  · rw [if_pos heq]
    cases decodeURIComponent (part.takeWhile (· ≠ 61)) with
    | none => simp
    | some name => cases decodeURIComponent ((part.dropWhile (· ≠ 61)).drop 1) <;> simp
  · have hkept : ∀ c ∈ part, decide (c ≠ 61) = true := by
      intro c hc
      refine decide_eq_true fun h61 => heq ?_
      rw [List.contains_iff_mem, ← h61]
      exact hc
    have hvalue : (decodeURIComponent []).isSome :=
      (decodeURIComponent_isSome_iff []).mpr decodes_nil
    rw [if_neg heq, List.takeWhile_eq_self_iff.mpr hkept, List.dropWhile_eq_nil_iff.mpr hkept,
      List.drop_nil, and_iff_left hvalue]
    cases decodeURIComponent part <;> simp

theorem mapM_isSome_iff {α β : Type} (f : α → Option β) (xs : List α) :
    (xs.mapM f).isSome ↔ ∀ x ∈ xs, (f x).isSome := by
  induction xs with
  | nil => simp
  | cons x xs ih =>
    rw [List.mapM_cons, List.forall_mem_cons, ← ih]
    cases f x with
    | none => simp
    | some y => cases xs.mapM f <;> simp

theorem parseQuery_isSome_iff (entry : InspectEntry) : (parseQuery (searchOf entry)).isSome ↔
    (∀ part ∈ queryParts entry, Decodes (part.takeWhile (· ≠ 61))) ∧
      ∀ part ∈ queryParts entry, Decodes ((part.dropWhile (· ≠ 61)).drop 1) := by
  have hsearch : (if (searchOf entry).head? = some 63 then (searchOf entry).tail
      else searchOf entry) = (searchOf entry).tail := by
    cases hcase : searchOf entry with
    | nil => rfl
    | cons c s =>
      have hhead := List.head?_dropWhile_not (fun c => decide (c ≠ 63)) (pathFull entry)
      rw [searchOf] at hcase
      rw [hcase] at hhead
      have hmark : c = 63 := by simpa using hhead
      rw [if_pos (by rw [hmark]; rfl)]
  rw [parseQuery, hsearch, mapM_isSome_iff]
  simp only [parseQueryPart_isSome_iff]
  exact forall₂_and

/-! ## The body -/

theorem latin1_isSome_iff (s : CStr) : (latin1 s).isSome ↔ Latin1 s := by
  induction s using latin1.induct with
  | case1 => exact iff_of_true rfl .nil
  | case2 b s hb ih =>
    rw [latin1.eq_def]
    simp only [hb, if_true, Option.isSome_map, ih]
    refine ⟨.ascii hb, fun h => ?_⟩
    cases h with
    | ascii _ hs => exact hs
    | upper hupper _ => rcases hupper with rfl | rfl <;> exact absurd hb (by decide)
  | case3 b hb =>
    rw [latin1.eq_def]
    simp only [hb, if_false]
    refine iff_of_false Bool.false_ne_true fun h => ?_
    cases h with
    | ascii hlow _ => exact hb hlow
  | case4 c s hb ih =>
    rw [latin1.eq_def]
    simp only [hb, if_false, if_true, Option.isSome_map, ih]
    refine ⟨.upper (.inl rfl), fun h => ?_⟩
    cases h with
    | ascii hlow _ => exact absurd hlow hb
    | upper _ hs => exact hs
  | case5 c s hb hne ih =>
    rw [latin1.eq_def]
    simp only [hb, hne, if_false, if_true, Option.isSome_map, ih]
    refine ⟨.upper (.inr rfl), fun h => ?_⟩
    cases h with
    | ascii hlow _ => exact absurd hlow hb
    | upper _ hs => exact hs
  | case6 b hb c s h194 h195 =>
    rw [latin1.eq_def]
    simp only [hb, h194, h195, if_false]
    refine iff_of_false Bool.false_ne_true fun h => ?_
    cases h with
    | ascii hlow _ => exact hb hlow
    | upper hupper _ => exact hupper.elim h194 h195

/-- A body can be written down: `btoa` takes it, if it is taken for binary. -/
def BodyWritten : Option HarPostData → Prop
  | none => True
  | some postData => postData.isBinary = true → (btoa postData.text).isSome

theorem bodyWritten_iff (js : Js) (entry : InspectEntry) : BodyWritten (postDataOf js entry) ↔
    ∀ text, entry.body = some text → isBinaryBody text = true → Latin1 text := by
  rw [postDataOf]
  cases hbody : entry.body with
  | none =>
    refine iff_of_true trivial fun text htext => ?_
    cases htext
  | some text =>
    cases text with
    | nil =>
      refine iff_of_true trivial fun text htext hbinary => ?_
      obtain rfl := Option.some.inj htext
      cases hbinary
    | cons b s =>
      show (isBinaryBody (b :: s) = true → (btoa (b :: s)).isSome) ↔ _
      rw [btoa, Option.isSome_map, latin1_isSome_iff]
      constructor
      · rintro h text htext
        obtain rfl := Option.some.inj htext
        exact h
      · exact fun h => h (b :: s) rfl

/-! ## Generators -/

section Generators

variable {β : Type} {f : Option HarPostData → Option β}

/-- The shape that the ten generators share: only `btoa` can throw. -/
theorem written_iff (hnone : (f none).isSome)
    (hbinary : ∀ p, p.isBinary = true → (f (some p)).isSome = (btoa p.text).isSome)
    (htext : ∀ p, p.isBinary = false → (f (some p)).isSome) (postData : Option HarPostData) :
    (f postData).isSome ↔ BodyWritten postData := by
  cases postData with
  | none => exact iff_of_true hnone trivial
  | some p =>
    rw [BodyWritten]
    cases hp : p.isBinary with
    | true => rw [hbinary p hp, forall_prop_of_true rfl]
    | false => exact iff_of_true (htext p hp) nofun

variable (js : Js) (entry : InspectEntry)

/-- A generator reads the entry, writes the body, and puts the text around it. -/
theorem generator_iff {γ : Type} {body : HarRequest → Option β} (text : HarRequest → β → γ)
    (hbody : ∀ har, (body har).isSome ↔ BodyWritten har.postData) :
    (do let har ← toHar js entry
        let code ← body har
        return text har code : Option γ).isSome ↔
      (parseQuery (searchOf entry)).isSome ∧ BodyWritten (postDataOf js entry) := by
  rw [toHar]
  cases parseQuery (searchOf entry) with
  | none => exact iff_of_false Bool.false_ne_true fun h => Bool.false_ne_true h.1
  | some query =>
    have hwritten : (body (harOf js entry query)).isSome ↔ BodyWritten (postDataOf js entry) :=
      hbody (harOf js entry query)
    rw [Option.isSome_some, and_iff_right rfl, ← hwritten]
    show ((body (harOf js entry query)).bind fun code =>
      some (text (harOf js entry query) code)).isSome ↔ _
    cases body (harOf js entry query) with
    | none => exact Iff.rfl
    | some code => exact Iff.rfl

variable (har : HarRequest)

theorem pyBody_written : (pyBody js har).isSome ↔ BodyWritten har.postData := by
  refine written_iff (f := fun postData => pyBody js { har with postData }) rfl (fun p hp => ?_)
    (fun p hp => ?_) har.postData
  · simp [pyBody, hp]
  · simp only [pyBody, hp, Bool.false_eq_true, if_false]
    split
    · cases js.jsonReprint p.text <;> rfl
    · split <;> rfl

theorem phpCurlBody_written : (PhpCurl.body js har).isSome ↔ BodyWritten har.postData := by
  refine written_iff (f := fun postData => PhpCurl.body js { har with postData }) rfl
    (fun p hp => ?_) (fun p hp => ?_) har.postData
  · simp [PhpCurl.body, hp]
  · simp only [PhpCurl.body, hp, Bool.false_eq_true, if_false]
    split <;> rfl

theorem phpGuzzleBody_written : (PhpGuzzle.body js har).isSome ↔ BodyWritten har.postData := by
  refine written_iff (f := fun postData => PhpGuzzle.body js { har with postData }) rfl
    (fun p hp => ?_) (fun p hp => ?_) har.postData
  · simp [PhpGuzzle.body, hp]
  · simp only [PhpGuzzle.body, hp, Bool.false_eq_true, if_false]
    split
    · cases js.jsonReprint p.text <;> rfl
    · split <;> rfl

theorem axiosBody_written (postData : Option HarPostData) :
    (NodeAxios.bodyCode js postData).isSome ↔ BodyWritten postData := by
  refine written_iff rfl (fun p hp => ?_) (fun p hp => ?_) postData
  · simp [NodeAxios.bodyCode, hp]
  · simp only [NodeAxios.bodyCode, hp, Bool.false_eq_true, if_false]
    split <;> rfl

end Generators

/-! ## Every target -/

theorem made_iff (js : Js) (target : TargetId) (entry : InspectEntry) :
    (generateSnippet js target entry).isSome ↔
      (parseQuery (searchOf entry)).isSome ∧ BodyWritten (postDataOf js entry) := by
  cases target with
  | curl =>
    refine generator_iff js entry Curl.text fun har => written_iff rfl ?_ ?_ har.postData
    · exact fun p hp => by simp [Curl.bodyFlag, hp]
    · exact fun p hp => by simp [Curl.bodyFlag, hp]
  | pythonRequests =>
    rw [generateSnippet, PythonRequests.generate, Option.isSome_map]
    exact generator_iff js entry _ (pyBody_written js)
  | pythonHttpx =>
    rw [generateSnippet, PythonHttpx.generate, Option.isSome_map]
    exact generator_iff js entry _ (pyBody_written js)
  | nodeFetch =>
    refine generator_iff js entry NodeFetch.text fun har => written_iff rfl ?_ ?_ har.postData
    · exact fun p hp => by simp [NodeFetch.bodyCode, hp]
    · exact fun p hp => by simp [NodeFetch.bodyCode, hp]
  | nodeAxios =>
    exact generator_iff js entry (NodeAxios.text js) fun har => axiosBody_written js har.postData
  | phpCurl =>
    rw [generateSnippet, PhpCurl.generate, Option.isSome_map]
    exact generator_iff js entry _ (phpCurlBody_written js)
  | phpGuzzle =>
    rw [generateSnippet, PhpGuzzle.generate, Option.isSome_map]
    exact generator_iff js entry _ (phpGuzzleBody_written js)
  | goNethttp =>
    refine generator_iff js entry GoNethttp.text fun har => written_iff rfl ?_ ?_ har.postData
    · exact fun p hp => by simp [GoNethttp.bodyCode, hp]
    · exact fun p hp => by simp [GoNethttp.bodyCode, hp]
  | rustReqwest =>
    refine generator_iff js entry (RustReqwest.text js) fun har => written_iff rfl ?_ ?_ har.postData
    · exact fun p hp => by simp [RustReqwest.bodyCode, hp]
    · exact fun p hp => by simp [RustReqwest.bodyCode, hp]
  | javaOkhttp =>
    refine generator_iff js entry JavaOkhttp.text fun har => written_iff rfl ?_ ?_ har.postData
    · exact fun p hp => by simp [JavaOkhttp.bodyCode, hp]
    · exact fun p hp => by simp [JavaOkhttp.bodyCode, hp]

/-- A snippet is made, for any target, exactly when the query string decodes and a body that is
taken for binary stays within Latin-1. -/
theorem snippet_is_made_iff (js : Js) (target : TargetId) (entry : InspectEntry) :
    (generateSnippet js target entry).isSome ↔ Writable entry := by
  rw [made_iff, parseQuery_isSome_iff, bodyWritten_iff]
  exact ⟨fun h => ⟨h.1.1, h.1.2, h.2⟩, fun h => ⟨⟨h.names, h.values⟩, h.body⟩⟩

/-- A search for `100%`. -/
def percentSearch : InspectEntry :=
  { post "text/plain" "" with url := some (lit "/search?q=100%"), body := none }

/-- A NUL and a character beyond Latin-1 in one body. -/
def wideBinary : InspectEntry :=
  { post "application/octet-stream" "" with body := some [0, 226, 130, 172] }

theorem some_entries_throw :
    ¬ ∀ (target : TargetId) (entry : InspectEntry), (generateSnippet asciiJs target entry).isSome := by
  intro h
  have hmade := ((made_iff asciiJs .curl percentSearch).mp (h .curl percentSearch)).1
  exact absurd hmade (by decide +kernel)

/-- So does a binary body, whatever the query string is. -/
theorem wideBinary_throws (target : TargetId) :
    (generateSnippet asciiJs target wideBinary).isSome = false := by
  rw [Bool.eq_false_iff]
  intro h
  have hwritten := ((made_iff asciiJs target wideBinary).mp h).2
  exact absurd (hwritten (by decide +kernel)) (by decide +kernel)

end Proxiflare.Guarantees.SnippetTotality
