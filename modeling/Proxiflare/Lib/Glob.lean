import Mathlib.Data.List.Infix

/-!
# Glob patterns

A pattern is a list of tokens over any alphabet: `star` stands for any string, `any` for one
letter, `chr` for itself. `Matches` is the meaning. A pattern written as a text names the two
letters that are wildcards.
-/

namespace Lib.Glob

variable {α : Type*}

inductive Tok (α : Type*) where
  | any
  | star
  | chr (c : α)
  deriving DecidableEq

inductive Matches : List (Tok α) → List α → Prop
  | nil : Matches [] []
  | any {ts : List (Tok α)} {s : List α} (c : α) (rest : Matches ts s) : Matches (.any :: ts) (c :: s)
  | star {ts : List (Tok α)} {s : List α} (skipped : List α) (rest : Matches ts s) :
      Matches (.star :: ts) (skipped ++ s)
  | chr {ts : List (Tok α)} {s : List α} (c : α) (rest : Matches ts s) :
      Matches (.chr c :: ts) (c :: s)

variable {ts us : List (Tok α)} {s t : List α}

/-! ## One token -/

@[simp]
theorem matches_nil_iff : Matches [] s ↔ s = [] := by
  constructor
  · rintro ⟨⟩
    rfl
  · rintro rfl
    exact .nil

theorem matches_any_iff : Matches (.any :: ts) s ↔ ∃ c rest, s = c :: rest ∧ Matches ts rest := by
  constructor
  · rintro (_ | ⟨c, hrest⟩)
    exact ⟨c, _, rfl, hrest⟩
  · rintro ⟨c, rest, rfl, hrest⟩
    exact .any c hrest

theorem matches_chr_iff {c : α} :
    Matches (.chr c :: ts) s ↔ ∃ rest, s = c :: rest ∧ Matches ts rest := by
  constructor
  · rintro (_ | _ | _ | ⟨_, hrest⟩)
    exact ⟨_, rfl, hrest⟩
  · rintro ⟨rest, rfl, hrest⟩
    exact .chr c hrest

/-- A pattern after a star matches some end of the string. -/
theorem matches_star_iff : Matches (.star :: ts) s ↔ ∃ m, m <:+ s ∧ Matches ts m := by
  constructor
  · rintro (_ | _ | ⟨skipped, hrest⟩)
    exact ⟨_, List.suffix_append skipped _, hrest⟩
  · rintro ⟨m, ⟨skipped, rfl⟩, hrest⟩
    exact .star skipped hrest

/-! ## Patterns in a row -/

theorem Matches.append (hts : Matches ts s) (hus : Matches us t) : Matches (ts ++ us) (s ++ t) := by
  induction hts with
  | nil => exact hus
  | any c _ ih => exact .any c ih
  | star skipped _ ih =>
    rw [List.append_assoc]
    exact .star skipped ih
  | chr c _ ih => exact .chr c ih

theorem matches_append_iff :
    Matches (ts ++ us) s ↔ ∃ a b, s = a ++ b ∧ Matches ts a ∧ Matches us b := by
  constructor
  · intro h
    induction ts generalizing s with
    | nil => exact ⟨[], s, rfl, .nil, h⟩
    | cons t ts ih =>
      rw [List.cons_append] at h
      cases h with
      | any c hrest =>
        obtain ⟨a, b, rfl, ha, hb⟩ := ih hrest
        exact ⟨c :: a, b, rfl, .any c ha, hb⟩
      | star skipped hrest =>
        obtain ⟨a, b, rfl, ha, hb⟩ := ih hrest
        exact ⟨skipped ++ a, b, (List.append_assoc ..).symm, .star skipped ha, hb⟩
      | chr c hrest =>
        obtain ⟨a, b, rfl, ha, hb⟩ := ih hrest
        exact ⟨c :: a, b, rfl, .chr c ha, hb⟩
  · rintro ⟨a, b, rfl, ha, hb⟩
    exact ha.append hb

/-- Between two stars: some stretch of the string matches. -/
theorem matches_contains_iff :
    Matches (.star :: (ts ++ [.star])) s ↔ ∃ m, m <:+: s ∧ Matches ts m := by
  rw [matches_star_iff]
  constructor
  · rintro ⟨u, hu, h⟩
    obtain ⟨m, rest, rfl, hm, -⟩ := matches_append_iff.mp h
    exact ⟨m, (List.prefix_append m rest).isInfix.trans hu.isInfix, hm⟩
  · rintro ⟨m, ⟨before, after, rfl⟩, hm⟩
    have hafter : Matches [.star] after := matches_star_iff.mpr ⟨[], List.nil_suffix, .nil⟩
    exact ⟨m ++ after, ⟨before, (List.append_assoc ..).symm⟩, hm.append hafter⟩

/-! ## Patterns written as texts -/

section Text

variable [DecidableEq α] (star any : α)

def ofText (text : List α) : List (Tok α) :=
  text.map fun c => if c = star then .star else if c = any then .any else .chr c

/-- Neither of the two wildcards occurs. -/
def Plain (text : List α) : Prop := star ∉ text ∧ any ∉ text

instance (text : List α) : Decidable (Plain star any text) :=
  inferInstanceAs (Decidable (_ ∧ _))

variable {star any}

theorem ofText_of_plain {text : List α} (h : Plain star any text) :
    ofText star any text = text.map .chr := by
  apply List.map_congr_left
  intro c hc
  have hstar : c ≠ star := fun heq => h.1 (heq ▸ hc)
  have hany : c ≠ any := fun heq => h.2 (heq ▸ hc)
  rw [if_neg hstar, if_neg hany]

/-- Without a wildcard a pattern matches itself only. -/
theorem matches_plain_iff {text : List α} (h : Plain star any text) :
    Matches (ofText star any text) s ↔ s = text := by
  rw [ofText_of_plain h]
  clear h
  induction text generalizing s with
  | nil => exact matches_nil_iff
  | cons c text ih => simp [matches_chr_iff, ih]

/-- The pattern read as a string is among its own matches. -/
theorem matches_self (text : List α) : Matches (ofText star any text) text := by
  induction text with
  | nil => exact .nil
  | cons c text ih =>
    rw [ofText, List.map_cons]
    split_ifs
    · exact .star [c] ih
    · exact .any c ih
    · exact .chr c ih

/-- `*text*`: some stretch of the string matches the text. -/
theorem matches_enclosed_iff {text : List α} :
    Matches (ofText star any (star :: (text ++ [star]))) s ↔
      ∃ m, m <:+: s ∧ Matches (ofText star any text) m := by
  have hends : ofText star any (star :: (text ++ [star])) =
      .star :: (ofText star any text ++ [.star]) := by simp [ofText]
  rw [hends]
  exact matches_contains_iff

/-- `*text`: some end of the string matches the text. -/
theorem matches_ending_iff {text : List α} :
    Matches (ofText star any (star :: text)) s ↔ ∃ m, m <:+ s ∧ Matches (ofText star any text) m := by
  have hhead : ofText star any (star :: text) = .star :: ofText star any text := by simp [ofText]
  rw [hhead]
  exact matches_star_iff

end Text

end Lib.Glob
