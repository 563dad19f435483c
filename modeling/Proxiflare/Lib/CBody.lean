import Mathlib.Data.Option.Basic
import Mathlib.Tactic.TypeStar

/-!
# Bodies of C functions

The body of a function that returns a `ρ`, over the memory `σ` it may write: it ends with a
value, or early with a `return`. A fault, `none`, is an access outside an object, or a loop
that still runs when its turns are used up. `Meets` is total: no fault, and what holds where
the body returns and where it ends.
-/

namespace Lib

def CBody (ρ σ α : Type) : Type := σ → Option (Except ρ α × σ)

namespace CBody

variable {ρ ρ' σ τ α β ι : Type}

instance : Monad (CBody ρ σ) where
  pure a := fun s => some (.ok a, s)
  bind m f := fun s => match m s with
    | some (.ok a, t) => f a t
    | some (.error r, t) => some (.error r, t)
    | none => none

def fault : CBody ρ σ α := fun _ => none

/-- `return r;` -/
def ret (r : ρ) : CBody ρ σ α := fun s => some (.error r, s)

def get : CBody ρ σ σ := fun s => some (.ok s, s)

def modify (f : σ → σ) : CBody ρ σ Unit := fun s => some (.ok (), f s)

/-- `if (!ok) return r;` -/
def require (ok : Prop) [Decidable ok] (r : ρ) : CBody ρ σ Unit := if ok then pure () else ret r

/-- The element at `i` of the array `a`. -/
def load (a : List α) (i : Nat) : CBody ρ σ α :=
  match a[i]? with
  | some x => pure x
  | none => fault

/-- The `n` elements from `i` on, as `memcpy` reads them. -/
def loadRange (a : List α) (i n : Nat) : CBody ρ σ (List α) :=
  if i + n ≤ a.length then pure ((a.drop i).take n) else fault

def overwrite (a : List α) (i : Nat) (xs : List α) : List α :=
  a.take i ++ xs ++ a.drop (i + xs.length)

/-- The array `a` with `xs` written from `i` on. -/
def store (a : List α) (i : Nat) (xs : List α) : CBody ρ σ (List α) :=
  if i + xs.length ≤ a.length then pure (overwrite a i xs) else fault

/-- The elements of `a` before the first `stop`, which must be in it. -/
def loadUntil [DecidableEq α] (a : List α) (stop : α) : CBody ρ σ (List α) :=
  if stop ∈ a then pure (a.takeWhile (· ≠ stop)) else fault

/-- `.inl` goes round once more, `.inr` leaves the loop. -/
def loop (body : ι → CBody ρ σ (ι ⊕ β)) : Nat → ι → CBody ρ σ β
  | 0, _ => fault
  | n + 1, i => do
    match ← body i with
    | .inl j => loop body n j
    | .inr b => pure b

/-- Reaching the end of the body returns its value. -/
def call (m : CBody ρ σ ρ) (s : σ) : Option (ρ × σ) :=
  match m s with
  | some (.ok r, t) => some (r, t)
  | some (.error r, t) => some (r, t)
  | none => none

/-- Calls a function on memory of its own. -/
def callOn (m : CBody ρ' τ ρ') (t : τ) : CBody ρ σ (ρ' × τ) :=
  match call m t with
  | some p => pure p
  | none => fault

/-- A pure partial computation that returns `r` where it is undefined. -/
def orReturn (r : ρ) (o : Option α) : CBody ρ σ α :=
  match o with
  | some a => pure a
  | none => ret r

/-- `cleanup` runs before an early `return`. -/
def onReturn (m : CBody ρ σ α) (cleanup : σ → σ) : CBody ρ σ α := fun s => match m s with
  | some (.ok a, t) => some (.ok a, t)
  | some (.error r, t) => some (.error r, cleanup t)
  | none => none

theorem bind_eq (m : CBody ρ σ α) (f : α → CBody ρ σ β) (s : σ) :
    (m >>= f) s = match m s with
      | some (.ok a, t) => f a t
      | some (.error r, t) => some (.error r, t)
      | none => none := rfl

theorem bind_assoc {γ : Type} (m : CBody ρ σ α) (f : α → CBody ρ σ β) (g : β → CBody ρ σ γ) :
    m >>= f >>= g = m >>= fun a => f a >>= g := by
  funext s
  rw [bind_eq, bind_eq, bind_eq]
  rcases m s with _ | ⟨_ | a, t⟩ <;> rfl

/-! ## What a body does -/

/-- `R` holds where it returns and `Q` where it ends. -/
def Meets (m : CBody ρ σ α) (s : σ) (R : ρ → σ → Prop) (Q : α → σ → Prop) : Prop :=
  match m s with
  | some (.ok a, t) => Q a t
  | some (.error r, t) => R r t
  | none => False

section Rules

variable {R R' : ρ → σ → Prop} {Q Q' : α → σ → Prop} {s : σ}

@[simp] theorem meets_pure {a : α} : Meets (pure a : CBody ρ σ α) s R Q ↔ Q a s := Iff.rfl

@[simp] theorem meets_fault : ¬ Meets (fault : CBody ρ σ α) s R Q := id

@[simp] theorem meets_ret {r : ρ} : Meets (ret r : CBody ρ σ α) s R Q ↔ R r s := Iff.rfl

@[simp] theorem meets_get {Q : σ → σ → Prop} : Meets (get : CBody ρ σ σ) s R Q ↔ Q s s := Iff.rfl

@[simp] theorem meets_modify {f : σ → σ} {Q : Unit → σ → Prop} :
    Meets (modify f : CBody ρ σ Unit) s R Q ↔ Q () (f s) := Iff.rfl

@[simp] theorem meets_bind {m : CBody ρ σ α} {f : α → CBody ρ σ β} {Q : β → σ → Prop} :
    Meets (m >>= f) s R Q ↔ Meets m s R fun a t => Meets (f a) t R Q := by
  rw [Meets, Meets, bind_eq]
  rcases m s with _ | ⟨r | a, t⟩ <;> rfl

theorem meets_ite {P : Prop} [Decidable P] {m n : CBody ρ σ α} :
    Meets (if P then m else n) s R Q ↔ if P then Meets m s R Q else Meets n s R Q := by
  split <;> rfl

theorem meets_require {ok : Prop} [Decidable ok] {r : ρ} {Q : Unit → σ → Prop} :
    Meets (require ok r : CBody ρ σ Unit) s R Q ↔ if ok then Q () s else R r s := by
  rw [require, meets_ite, meets_pure, meets_ret]

theorem meets_load {a : List α} {i : Nat} :
    Meets (load a i : CBody ρ σ α) s R Q ↔ ∃ h : i < a.length, Q a[i] s := by
  rw [load]
  split
  · next x hx =>
    obtain ⟨hlt, rfl⟩ := List.getElem?_eq_some_iff.mp hx
    exact ⟨fun h => ⟨hlt, h⟩, fun ⟨_, h⟩ => h⟩
  · next hnone =>
    have hge := List.getElem?_eq_none_iff.mp hnone
    exact ⟨fun h => absurd h meets_fault, fun ⟨hlt, _⟩ => absurd hlt (by omega)⟩

theorem meets_loadRange {a : List α} {i n : Nat} {Q : List α → σ → Prop} :
    Meets (loadRange a i n : CBody ρ σ (List α)) s R Q ↔
      i + n ≤ a.length ∧ Q ((a.drop i).take n) s := by
  rw [loadRange, meets_ite, meets_pure]
  split
  · next h => exact (and_iff_right h).symm
  · next h => exact iff_of_false meets_fault fun hn => h hn.1

theorem meets_store {a xs : List α} {i : Nat} {Q : List α → σ → Prop} :
    Meets (store a i xs : CBody ρ σ (List α)) s R Q ↔
      i + xs.length ≤ a.length ∧ Q (overwrite a i xs) s := by
  rw [store, meets_ite, meets_pure]
  split
  · next h => exact (and_iff_right h).symm
  · next h => exact iff_of_false meets_fault fun hn => h hn.1

theorem meets_loadUntil [DecidableEq α] {a : List α} {stop : α} {Q : List α → σ → Prop} :
    Meets (loadUntil a stop : CBody ρ σ (List α)) s R Q ↔
      stop ∈ a ∧ Q (a.takeWhile (· ≠ stop)) s := by
  rw [loadUntil, meets_ite, meets_pure]
  split
  · next h => exact (and_iff_right h).symm
  · next h => exact iff_of_false meets_fault fun hn => h hn.1

theorem meets_orReturn {r : ρ} {o : Option α} :
    Meets (orReturn r o : CBody ρ σ α) s R Q ↔
      (∀ a, o = some a → Q a s) ∧ (o = none → R r s) := by
  cases o with
  | none => simp [orReturn]
  | some a => simp [orReturn]

theorem Meets.mono {m : CBody ρ σ α} (h : Meets m s R Q) (hR : ∀ r t, R r t → R' r t)
    (hQ : ∀ a t, Q a t → Q' a t) : Meets m s R' Q' := by
  unfold Meets at h ⊢
  split at h
  · exact hQ _ _ h
  · exact hR _ _ h
  · exact h

/-- The body keeps the invariant `I` and brings the variant `v` down while it goes round. -/
theorem meets_loop {body : ι → CBody ρ σ (ι ⊕ β)} {Q : β → σ → Prop} (I : ι → σ → Prop)
    (v : ι → Nat)
    (hbody : ∀ i s, I i s →
      Meets (body i) s R (Sum.elim (fun j t => I j t ∧ v j < v i) Q))
    {n : Nat} {i : ι} (hI : I i s) (hn : v i < n) : Meets (loop body n i) s R Q := by
  induction n generalizing i s with
  | zero => exact absurd hn (Nat.not_lt_zero _)
  | succ n ih =>
    rw [loop, meets_bind]
    refine (hbody i s hI).mono (fun _ _ h => h) ?_
    rintro (j | b) t h
    · exact ih h.1 (by have := h.2; omega)
    · exact h

theorem Meets.eq {m : CBody ρ σ α} {a : α} {t : σ}
    (h : Meets m s (fun _ _ => False) fun a' t' => a' = a ∧ t' = t) : m s = some (.ok a, t) := by
  rw [Meets] at h
  rcases hm : m s with _ | ⟨r | a', t'⟩
  · rw [hm] at h
    exact h.elim
  · rw [hm] at h
    exact h.elim
  · rw [hm] at h
    obtain ⟨rfl, rfl⟩ := h
    rfl

/-- A stretch that is known to end is passed. -/
theorem meets_bind_of_eq {m : CBody ρ σ α} {f : α → CBody ρ σ β} {Q : β → σ → Prop} {a : α} {t : σ}
    (h : m s = some (.ok a, t)) : Meets (m >>= f) s R Q ↔ Meets (f a) t R Q := by
  rw [Meets, Meets, bind_eq, h]

/-- A function whose body meets `P` gives a result for which `P` holds. -/
theorem Meets.call {m : CBody ρ σ ρ} {P : ρ → σ → Prop} (h : Meets m s P P) :
    ∃ r t, CBody.call m s = some (r, t) ∧ P r t := by
  rw [Meets] at h
  rw [CBody.call]
  rcases hm : m s with _ | ⟨r | r, t⟩
  · rw [hm] at h
    exact h.elim
  · rw [hm] at h
    exact ⟨r, t, rfl, h⟩
  · rw [hm] at h
    exact ⟨r, t, rfl, h⟩

theorem Meets.of_call {m : CBody ρ σ ρ} {r : ρ} {t : σ} (h : CBody.call m s = some (r, t)) :
    Meets m s (fun _ _ => True) fun _ _ => True := by
  rw [CBody.call] at h
  rw [Meets]
  split at h
  · next hm =>
    rw [hm]
    trivial
  · next hm =>
    rw [hm]
    trivial
  · cases h

end Rules

/-! ## Pure stretches -/

@[simp] theorem pure_then (a : α) (f : α → CBody ρ σ β) : pure a >>= f = f a := rfl

@[simp] theorem fault_then (f : α → CBody ρ σ β) : fault >>= f = fault := rfl

@[simp] theorem ret_then (r : ρ) (f : α → CBody ρ σ β) : ret r >>= f = ret r := rfl

theorem orReturn_bind {r : ρ} {o : Option α} {m : α → CBody ρ σ β} {f : α → Option β}
    (h : ∀ a, o = some a → m a = orReturn r (f a)) :
    orReturn r o >>= m = orReturn r (o.bind f) := by
  cases o with
  | none => rfl
  | some a => exact h a rfl

theorem require_bind {P : Prop} [Decidable P] {r : ρ} {m : Unit → CBody ρ σ β}
    {f : Unit → Option β} (h : P → m () = orReturn r (f ())) :
    require P r >>= m = orReturn r ((guard P : Option Unit).bind f) := by
  rw [require, guard]
  split
  · next hP => exact h hP
  · rfl

theorem require_then {P : Prop} [Decidable P] {r : ρ} {m : Unit → CBody ρ σ β}
    {f : Unit → Option α} {k : α → CBody ρ σ β} (h : P → m () = orReturn r (f ()) >>= k) :
    require P r >>= m = orReturn r ((guard P : Option Unit).bind f) >>= k := by
  rw [require, guard]
  split
  · next hP => exact h hP
  · rfl

theorem callOn_eq {m : CBody ρ' τ ρ'} {t : τ} {p : ρ' × τ} (h : CBody.call m t = some p) :
    (callOn m t : CBody ρ σ (ρ' × τ)) = pure p := by
  rw [callOn, h]

theorem load_eq {a : List α} {i : Nat} {x : α} (h : a[i]? = some x) :
    (load a i : CBody ρ σ α) = pure x := by
  rw [load, h]

theorem require_eq {ok : Prop} [Decidable ok] {r : ρ} (h : ok) :
    (require ok r : CBody ρ σ Unit) = pure () := if_pos h

theorem require_eq_ret {ok : Prop} [Decidable ok] {r : ρ} (h : ¬ ok) :
    (require ok r : CBody ρ σ Unit) = ret r := if_neg h

theorem store_eq {a xs : List α} {i : Nat} (h : i + xs.length ≤ a.length) :
    (store a i xs : CBody ρ σ (List α)) = pure (overwrite a i xs) := if_pos h

theorem store_eq_fault {a xs : List α} {i : Nat} (h : a.length < i + xs.length) :
    (store a i xs : CBody ρ σ (List α)) = fault := if_neg (by omega)

theorem loadUntil_eq [DecidableEq α] {a : List α} {stop : α} (h : stop ∈ a) :
    (loadUntil a stop : CBody ρ σ (List α)) = pure (a.takeWhile (· ≠ stop)) := if_pos h

theorem loadRange_eq {a : List α} {i n : Nat} (h : i + n ≤ a.length) :
    (loadRange a i n : CBody ρ σ (List α)) = pure ((a.drop i).take n) := if_pos h

/-! ## Returns that clean up -/

section OnReturn

variable {cleanup : σ → σ}

@[simp] theorem onReturn_bind (m : CBody ρ σ α) (f : α → CBody ρ σ β) :
    (m >>= f).onReturn cleanup = m.onReturn cleanup >>= fun a => (f a).onReturn cleanup := by
  funext s
  rw [onReturn, bind_eq, bind_eq, onReturn]
  rcases m s with _ | ⟨_ | a, t⟩ <;> rfl

@[simp] theorem onReturn_pure (a : α) : (pure a : CBody ρ σ α).onReturn cleanup = pure a := rfl

@[simp] theorem onReturn_ret (r : ρ) :
    (ret r : CBody ρ σ α).onReturn cleanup = modify cleanup >>= fun _ => ret r := rfl

@[simp] theorem onReturn_fault : (fault : CBody ρ σ α).onReturn cleanup = fault := rfl

@[simp] theorem onReturn_ite {P : Prop} [Decidable P] (m n : CBody ρ σ α) :
    (if P then m else n).onReturn cleanup =
      if P then m.onReturn cleanup else n.onReturn cleanup := by
  split <;> rfl

@[simp] theorem onReturn_store (a xs : List α) (i : Nat) :
    (store a i xs : CBody ρ σ (List α)).onReturn cleanup = store a i xs := by
  simp [store]

@[simp] theorem onReturn_loadRange (a : List α) (i n : Nat) :
    (loadRange a i n : CBody ρ σ (List α)).onReturn cleanup = loadRange a i n := by
  simp [loadRange]

@[simp] theorem onReturn_loadUntil [DecidableEq α] (a : List α) (stop : α) :
    (loadUntil a stop : CBody ρ σ (List α)).onReturn cleanup = loadUntil a stop := by
  simp [loadUntil]

end OnReturn

/-! ## Arrays -/

@[simp] theorem length_overwrite {a xs : List α} {i : Nat} (h : i + xs.length ≤ a.length) :
    (overwrite a i xs).length = a.length := by
  simp only [overwrite, List.length_append, List.length_take, List.length_drop]
  omega

theorem overwrite_zero (a xs : List α) : overwrite a 0 xs = xs ++ a.drop xs.length := by
  rw [overwrite, List.take_zero, List.nil_append, Nat.zero_add]

/-- What is written stands right after what was there before it. -/
theorem overwrite_append (xs ys zs : List α) :
    overwrite (xs ++ ys) xs.length zs = xs ++ (zs ++ ys.drop zs.length) := by
  rw [overwrite, List.take_left, ← List.drop_drop, List.drop_left, List.append_assoc]

/-- An array of `n` elements that starts with `xs` and is `x` from there on. -/
def padded (n : Nat) (x : α) (xs : List α) : List α := xs ++ List.replicate (n - xs.length) x

theorem length_padded {n : Nat} {x : α} {xs : List α} (h : xs.length ≤ n) :
    (padded n x xs).length = n := by
  rw [padded, List.length_append, List.length_replicate]
  omega

theorem overwrite_padded {n : Nat} {x : α} (xs ys : List α) :
    overwrite (padded n x xs) xs.length ys = padded n x (xs ++ ys) := by
  rw [overwrite, padded, padded, List.take_left, List.drop_append, List.drop_of_length_le (by omega),
    List.nil_append, Nat.add_sub_cancel_left, List.drop_replicate, List.length_append,
    Nat.sub_sub]

/-- Writing the padding over the padding changes nothing. -/
theorem padded_append {n : Nat} {x : α} {xs : List α} (h : xs.length < n) :
    padded n x (xs ++ [x]) = padded n x xs := by
  obtain ⟨k, hk⟩ := Nat.exists_eq_succ_of_ne_zero (show n - xs.length ≠ 0 by omega)
  rw [padded, padded, List.append_assoc, List.length_append, List.length_singleton, ← Nat.sub_sub, hk,
    Nat.succ_sub_one, List.replicate_succ]
  rfl

theorem mem_padded {n : Nat} {x : α} {xs : List α} (h : xs.length < n) : x ∈ padded n x xs :=
  List.mem_append_right _ (List.mem_replicate.mpr ⟨by omega, rfl⟩)

/-- The first element of the padding is written. -/
theorem set_padded {n : Nat} {x y : α} {xs : List α} (h : xs.length < n) :
    (padded n x xs).set xs.length y = padded n x (xs ++ [y]) := by
  obtain ⟨k, hk⟩ := Nat.exists_eq_succ_of_ne_zero (show n - xs.length ≠ 0 by omega)
  rw [padded, padded, List.set_append_right _ _ (Nat.le_refl _), Nat.sub_self, List.append_assoc,
    List.length_append, List.length_singleton, ← Nat.sub_sub, hk, Nat.succ_sub_one,
    List.replicate_succ]
  rfl

theorem getElem?_padded {n : Nat} {x : α} {xs : List α} (h : xs.length < n) :
    (padded n x xs)[xs.length]? = some x := by
  rw [padded, List.getElem?_append_right (Nat.le_refl _), Nat.sub_self, List.getElem?_replicate,
    if_pos (by omega)]

theorem getElem?_padded_of_lt {n i : Nat} {x : α} {xs : List α} (h : i < xs.length) :
    (padded n x xs)[i]? = xs[i]? := List.getElem?_append_left h

theorem takeWhile_padded [DecidableEq α] (n : Nat) (x : α) (xs : List α) :
    (padded n x xs).takeWhile (· ≠ x) = xs.takeWhile (· ≠ x) := by
  have hpad : (List.replicate (n - xs.length) x).takeWhile (· ≠ x) = [] := by
    simp
  rw [padded, List.takeWhile_append, hpad]
  split
  · next h => rw [List.append_nil, (List.takeWhile_prefix _).eq_of_length h]
  · rfl

end CBody

end Lib
