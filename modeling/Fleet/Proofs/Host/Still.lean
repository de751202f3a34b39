/-
# Still dialogues

A dialogue is still if nothing in it may have changed a file. `Discloses` describes attempts by the
values that they end with where their dialogue was not: one that keeps still has none, and an honest
one says that something changed.
-/

import Fleet.Host.Machine
import Fleet.Proofs.Host.Dialogue

namespace Fleet

namespace Host

/-- Whether an operation may change a file. What a program does that is run is its own affair. -/
def Operation.modifies : Operation → Bool
  | create _ | openEnd _ | append _ _ | setMode _ _ | setOwner _ _ _ | rename _ _ | remove _
  | makeDirectory _ | temporary => true
  | _ => false

/-- Any other operation, a program apart, leaves the files of a machine as they are. -/
theorem files_handler {env : Environment} {op : Operation} {m : Machine}
    (still : op.modifies = false) (own : ∀ c, op ≠ .run c) :
    (Machine.handler env op m).2.files = m.files := by
  cases op with
  | run c => exact absurd rfl (own c)
  | create | openEnd | append | setMode | setOwner | rename | remove | makeDirectory | temporary =>
      cases still
  | _ => rfl

/-- A dialogue in which nothing was asked for that may change a file. -/
def IsStill (log : List Exchange) : Prop := ∀ e ∈ log, e.op.modifies = false

variable {l l' : List Exchange}

@[simp] theorem isStill_nil : IsStill [] := nofun

@[simp] theorem isStill_append : IsStill (l ++ l') ↔ IsStill l ∧ IsStill l' :=
  List.forall_mem_append

@[simp] theorem isStill_cons {e : Exchange} :
    IsStill (e :: l) ↔ e.op.modifies = false ∧ IsStill l :=
  List.forall_mem_cons

namespace Attempt

open Host.Action (After)

variable {ε ε' α β : Type} {x : Attempt ε α} {f : α → Attempt ε β}
variable {P : α → Prop} {R : β → Prop}

/-- An attempt of which every value that is not as described stands for a still dialogue. -/
def Discloses (P : α → Prop) (x : Attempt ε α) : Prop :=
  ∀ l a, After x.outcome l (.done (.ok a)) → IsStill l ∨ P a

/-- An attempt that changes no file on the way to its value. -/
abbrev KeepsStill (x : Attempt ε α) : Prop := x.Discloses fun _ => False

/-- An attempt that changes no file on the way to the answer that nothing changed. -/
abbrev Honest (x : Attempt ε Bool) : Prop := x.Discloses fun changed => changed = true

theorem discloses_pure (a : α) : Discloses P (pure a : Attempt ε α) := by
  intro l b ended
  obtain ⟨rfl, _⟩ := Action.after_done.1 ended
  exact .inl isStill_nil

theorem discloses_throw (e : ε) : Discloses P (throw e : Attempt ε α) := by
  intro l b ended
  obtain ⟨rfl, _⟩ := Action.after_done.1 ended
  exact .inl isStill_nil

theorem discloses_bind (first : x.KeepsStill) (rest : ∀ a, (f a).Discloses R) :
    (x >>= f).Discloses R := by
  intro l b ended
  obtain ⟨e, failed, _⟩ | ⟨l₁, l₂, a, rfl, did, does⟩ := after_bind.1 ended
  · cases failed
  · have before := (first l₁ a did).resolve_right id
    exact (rest a l₂ b does).imp_left fun later => isStill_append.2 ⟨before, later⟩

theorem Discloses.mapError {g : ε → ε'} (discloses : x.Discloses P) :
    (x.mapError g).Discloses P := by
  intro l a ended
  obtain ⟨answer, did, same⟩ := after_mapError.1 ended
  cases answer with
  | ok b =>
      cases same
      exact discloses l a did
  | error e => cases same

/-- An attempt that ends with no value but those described. -/
def Gives (P : α → Prop) (x : Attempt ε α) : Prop :=
  ∀ l a, After x.outcome l (.done (.ok a)) → P a

theorem gives_pure {a : α} (holds : P a) : Gives P (pure a : Attempt ε α) := by
  intro l b ended
  cases (Action.after_done.1 ended).2
  exact holds

theorem gives_bind (rest : ∀ a, (f a).Gives R) : (x >>= f).Gives R := by
  intro l b ended
  obtain ⟨e, failed, _⟩ | ⟨l₁, l₂, a, _, _, does⟩ := after_bind.1 ended
  · cases failed
  · exact rest a l₂ b does

theorem discloses_of_gives (gives : x.Gives P) : x.Discloses P :=
  fun l a ended => .inr (gives l a ended)

theorem honest_or {y z : Attempt ε Bool} (first : y.Honest) (second : z.Honest) :
    Honest (do
      let a ← y
      let b ← z
      return a || b) := by
  intro l changed ended
  obtain ⟨e, failed, _⟩ | ⟨l₁, l₂, a, rfl, did, ended⟩ := after_bind.1 ended
  · cases failed
  obtain ⟨e, failed, _⟩ | ⟨l₂, l₃, b, rfl, does, ended⟩ := after_bind.1 ended
  · cases failed
  obtain ⟨rfl, same⟩ := Action.after_done.1 ended
  cases same
  rcases first l₁ a did with before | rfl
  · rcases second l₂ b does with later | rfl
    · exact .inl (by simp [before, later])
    · exact .inr (Bool.or_true a)
  · exact .inr (Bool.true_or b)

theorem keepsStill_lift {y : Action α} (still : ∀ l a, After y l (.done a) → IsStill l) :
    KeepsStill (liftM y : Attempt ε α) := by
  intro l a ended
  rw [outcome_lift] at ended
  obtain ⟨l₁, l₂, b, rfl, did, ended⟩ := Action.after_bind.1 ended
  obtain ⟨rfl, _⟩ := Action.after_done.1 ended
  exact .inl (isStill_append.2 ⟨still l₁ b did, isStill_nil⟩)

end Attempt

theorem isStill_perform (op : Operation) {reply : op.Reply} (still : op.modifies = false)
    (ended : (Action.perform op).After l (.done reply)) : IsStill l := by
  rw [Action.after_perform.1 ended]
  exact isStill_cons.2 ⟨still, isStill_nil⟩

theorem keepsStill_info (path : String) : (Host.info path).KeepsStill :=
  fun _ _ ended => .inl (isStill_perform (.info path) rfl ended)

theorem keepsStill_read (path : String) : (Host.read path).KeepsStill :=
  fun _ _ ended => .inl (isStill_perform (.read path) rfl ended)

theorem keepsStill_info_outcome {ε : Type} (path : String) :
    (liftM (Host.info path).outcome : Attempt ε (Except HostError FileInfo)).KeepsStill :=
  Attempt.keepsStill_lift fun _ _ ended => isStill_perform (.info path) rfl ended

end Host

end Fleet
