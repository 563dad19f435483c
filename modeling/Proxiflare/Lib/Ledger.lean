import Proxiflare.Lib.Act

/-!
# Accounts of resources

Some entries of a log open a resource, some close one. `settle` goes through a log and is
undefined where one that is open is opened or one that is not is closed. A computation accounts
for what it holds if its log settles: with what is held before it, and with what is held after it,
which may depend on its result.
-/

namespace Lib.Ledger

variable {ρ ε σ α β : Type}

inductive Effect (ρ : Type) where
  | opens (r : ρ)
  | closes (r : ρ)
  | none

variable [DecidableEq ρ]

def Effect.apply (held : List ρ) : Effect ρ → Option (List ρ)
  | .opens r => if r ∈ held then Option.none else some (r :: held)
  | .closes r => if r ∈ held then some (held.erase r) else Option.none
  | .none => some held

def settle (effect : ε → Effect ρ) (held : List ρ) : List ε → Option (List ρ)
  | [] => some held
  | e :: es => (Effect.apply held (effect e)).bind fun held => settle effect held es

variable {effect : ε → Effect ρ} {pre held : List ρ} {es : List ε} {e : ε}

theorem settle_append (es₁ es₂ : List ε) :
    settle effect pre (es₁ ++ es₂) =
      (settle effect pre es₁).bind fun held => settle effect held es₂ := by
  induction es₁ generalizing pre with
  | nil => rfl
  | cons e es ih =>
    rw [List.cons_append, settle, settle, Option.bind_assoc]
    exact Option.bind_congr fun held _ => ih

theorem settle_quiet (h : ∀ e ∈ es, effect e = .none) : settle effect pre es = some pre := by
  induction es with
  | nil => rfl
  | cons e es ih =>
    obtain ⟨he, hes⟩ := List.forall_mem_cons.mp h
    rw [settle, he]
    exact ih hes

/-- `log` is where a state keeps its log; `post` is what is held with the result. -/
def Accounts (log : σ → List ε) (effect : ε → Effect ρ) (pre : List ρ) (m : Act σ α)
    (post : Option α → List ρ) : Prop :=
  ∀ s, ∃ es, log (m s).2 = log s ++ es ∧ settle effect pre es = some (post (m s).1)

namespace Accounts

variable {log : σ → List ε} {post : Option α → List ρ} {mid : Option α → List ρ}

theorem pure {a : α} (h : post (some a) = pre) :
    Accounts log effect pre (Pure.pure a : Act σ α) post :=
  fun _ => ⟨[], (List.append_nil _).symm, congrArg some h.symm⟩

theorem fail (h : post none = pre) : Accounts log effect pre (Act.fail : Act σ α) post :=
  fun _ => ⟨[], (List.append_nil _).symm, congrArg some h.symm⟩

/-- A computation that only adds entries about no resource. -/
theorem quiet {m : Act σ α}
    (h : ∀ s, ∃ es, log (m s).2 = log s ++ es ∧ ∀ e ∈ es, effect e = .none) :
    Accounts log effect pre m fun _ => pre := by
  intro s
  obtain ⟨es, hlog, hquiet⟩ := h s
  exact ⟨es, hlog, settle_quiet hquiet⟩

theorem update {f : σ → σ} {post : Option PUnit → List ρ} (hlog : ∀ s, log (f s) = log s ++ [e])
    (h : Effect.apply pre (effect e) = some (post (some ⟨⟩))) :
    Accounts log effect pre (Act.update f) post := by
  intro s
  refine ⟨[e], hlog s, ?_⟩
  rw [settle, h]
  rfl

theorem bind {m : Act σ α} {f : α → Act σ β} {post : Option β → List ρ}
    (hm : Accounts log effect pre m mid) (hnone : post none = mid none)
    (hf : ∀ a, Accounts log effect (mid (some a)) (f a) post) :
    Accounts log effect pre (m >>= f) post := by
  intro s
  obtain ⟨es, hlog, hsettle⟩ := hm s
  show ∃ es, log (match m s with | (some a, t) => f a t | (none, t) => (none, t)).2 = _ ∧
    settle effect pre es =
      some (post (match m s with | (some a, t) => f a t | (none, t) => (none, t)).1)
  rcases hrun : m s with ⟨_ | a, t⟩
  · rw [hrun] at hlog hsettle
    exact ⟨es, hlog, hsettle.trans (congrArg some hnone.symm)⟩
  · rw [hrun] at hlog hsettle
    obtain ⟨es', hlog', hsettle'⟩ := hf a t
    refine ⟨es ++ es', ?_, ?_⟩
    · rw [← List.append_assoc, ← hlog]
      exact hlog'
    · rw [settle_append, hsettle]
      exact hsettle'

/-- A cleanup that makes one entry. -/
theorem onFail {m : Act σ α} {cleanup : σ → σ} (hm : Accounts log effect pre m mid)
    (hlog : ∀ s, log (cleanup s) = log s ++ [e]) (hsome : ∀ a, post (some a) = mid (some a))
    (hnone : Effect.apply (mid none) (effect e) = some (post none)) :
    Accounts log effect pre (m.onFail cleanup) post := by
  intro s
  obtain ⟨es, hes, hsettle⟩ := hm s
  unfold Act.onFail
  rcases hrun : m s with ⟨_ | a, t⟩
  · rw [hrun] at hes hsettle
    refine ⟨es ++ [e], ?_, ?_⟩
    · rw [← List.append_assoc, ← hes]
      exact hlog t
    · rw [settle_append, hsettle, Option.bind_some, settle, hnone]
      rfl
  · rw [hrun] at hes hsettle
    exact ⟨es, hes, hsettle.trans (congrArg some (hsome a).symm)⟩

end Accounts

end Lib.Ledger
