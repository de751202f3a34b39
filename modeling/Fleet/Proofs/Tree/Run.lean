/-
# A whole tree

Places of one asset never share a location, and a step changes nothing but its own place. So what a
step leaves is still there when the run is over, and whatever is at no place of the asset is as it
was. A run that succeeded therefore leaves every place settled, and a second run finds nothing to
do.
-/

import Fleet.Proofs.Asset.Places
import Fleet.Proofs.Tree.Entry
import Fleet.Runner.Tree

namespace Fleet

open Host
open Host.Attempt
open Host.FileSystem (Keeps keptId)
open Host.Machine (handler)

namespace Tree

variable {env : Environment} {m m' : Machine} {start D place : Location} {dst : String}
variable {vars : Vars} {o : Overrides} {e : Asset.Entry} {es : List Asset.Entry}
variable {report r : TaskResult} {q : Location}

/-- An entry goes to its own place below the place of the destination. -/
theorem place_of_locate {fs : FileSystem} (at_ : e.IsAt e.place)
    (located : fs.locate start dst = .ok D) (led : fs.locate start (pathBelow dst e) = .ok place) :
    place = D ++ e.place := by
  obtain ⟨_, root⟩ := FileSystem.locate_eq_ok_iff.1 located
  obtain ⟨_, below⟩ := FileSystem.locate_eq_ok_iff.1 led
  rw [pathBelow, String.toList_ofList, Path.components_append _ at_.relative, List.foldlM_append]
    at below
  obtain ⟨there, again, names⟩ := bind_eq_ok_iff.1 below
  obtain rfl := Except.ok.inj (again.symm.trans root)
  exact FileSystem.eq_append_of_foldlM_names at_.named names

/-- What became of an entry between two states of the files. -/
def IsBrought (env : Environment) (vars : Vars) (o : Overrides) (dst : String) (D : Location)
    (before after : FileSystem) (e : Asset.Entry) : Prop :=
  ∃ w n, wanted vars (o.resolve (treePath e)) e = .ok w ∧
    after.lookup env.directory (pathBelow dst e) = .ok (D ++ e.place, n) ∧
    Meets w (before.find? (D ++ e.place)) n

/-- The files at no place of some entries are as before. -/
def Spares (D : Location) (es : List Asset.Entry) (before after : FileSystem) : Prop :=
  ∀ q, (∀ e ∈ es, q ≠ D ++ e.place) → after.find? q = before.find? q

theorem brought_of_ensureEntries (located : m.files.locate env.directory dst = .ok D)
    (at_ : ∀ e ∈ es, e.IsAt e.place) (apart : es.Pairwise fun e e' => e.place ≠ e'.place)
    (ended : Yields (handler env) (ensureEntries vars o dst report es) m r m') :
    Keeps m.files m'.files ∧ Spares D es m.files m'.files ∧
      ∀ e ∈ es, IsBrought env vars o dst D m.files m'.files e := by
  induction es generalizing m report with
  | nil =>
      obtain ⟨rfl, rfl⟩ := yields_pure.1 ended
      exact ⟨Keeps.refl _, fun _ _ => rfl, nofun⟩
  | cons e rest ih =>
      obtain ⟨changed, m₁, first, later⟩ := yields_bind.1 ended
      obtain ⟨w, asked, first⟩ := yields_ensureEntry.1 first
      obtain ⟨place, n, step⟩ := yields_ensureWanted (isOrdinary_permissions asked) first
      obtain rfl := place_of_locate (at_ e List.mem_cons_self) located step.located
      obtain ⟨differ, apart⟩ := List.pairwise_cons.1 apart
      have elsewhere : ∀ e' ∈ rest, D ++ e.place ≠ D ++ e'.place :=
        fun e' member same => differ e' member (List.append_cancel_left same)
      obtain ⟨keeps, spares, brought⟩ := ih (FileSystem.locate_of_keeps step.keeps located)
        (fun e' member => at_ e' (List.mem_cons_of_mem _ member)) apart later
      -- later steps spare what the first one left, and the first one spared what they meet
      refine ⟨step.keeps.trans keeps, fun q free => ?_, fun e' member => ?_⟩
      · rw [spares q fun e' member => free e' (List.mem_cons_of_mem _ member),
          step.find?_of_ne (free e List.mem_cons_self)]
      · rcases List.mem_cons.1 member with rfl | member
        · exact ⟨w, n, asked, FileSystem.lookup_of_keeps keeps (spares _ elsewhere) step.lookup,
            step.meets⟩
        · obtain ⟨w', n', asked', found, meets⟩ := brought e' member
          rw [step.find?_of_ne (elsewhere e' member).symm] at meets
          exact ⟨w', n', asked', found, meets⟩

/-! ## A second run -/

/-- An entry whose place leaves nothing to do. -/
def IsDone (env : Environment) (vars : Vars) (o : Overrides) (dst : String) (fs : FileSystem)
    (e : Asset.Entry) : Prop :=
  ∃ w place n, wanted vars (o.resolve (treePath e)) e = .ok w ∧
    fs.lookup env.directory (pathBelow dst e) = .ok (place, n) ∧ Settled w n

/-- The lines of a run in which nothing changes. -/
def okLines (dst : String) (es : List Asset.Entry) : String :=
  String.join (es.map fun e => line false (pathBelow dst e))

theorem yields_ensureEntries_of_isDone (done : ∀ e ∈ es, IsDone env vars o dst m.files e) :
    Yields (handler env) (ensureEntries vars o dst report es) m
      { report with output := report.output ++ okLines dst es } m := by
  induction es generalizing report with
  | nil => simp [ensureEntries, okLines]
  | cons e rest ih =>
      obtain ⟨w, place, n, asked, found, settled⟩ := done e List.mem_cons_self
      have first : Yields (handler env)
          (ensureEntry vars (o.resolve (treePath e)) (pathBelow dst e) e) m false m :=
        yields_ensureEntry.2 ⟨w, asked, yields_ensureWanted_of_settled found settled⟩
      rw [ensureEntries, first.bind]
      have later := @ih (addPlace report (o.resolve (treePath e)) (pathBelow dst e) false)
        fun e' member => done e' (List.mem_cons_of_mem _ member)
      have whole : okLines dst (e :: rest) = line false (pathBelow dst e) ++ okLines dst rest := by
        rw [okLines, List.map_cons, String.join_cons]
        rfl
      rw [whole, ← String.append_assoc]
      simpa [addPlace] using later

/-! ## Owners that stand for someone -/

/-- Overrides of which none asks for the number that keeps an owner. -/
def Overrides.IsReal (o : Overrides) : Prop :=
  ∀ b ∈ o.entries, b.2.uid ≠ some keptId ∧ b.2.gid ≠ some keptId

instance (o : Overrides) : Decidable o.IsReal :=
  inferInstanceAs (Decidable (∀ b ∈ o.entries, b.2.uid ≠ some keptId ∧ b.2.gid ≠ some keptId))

theorem Meta.refine_ne {above below : Meta}
    (first : above.uid ≠ some keptId ∧ above.gid ≠ some keptId)
    (second : below.uid ≠ some keptId ∧ below.gid ≠ some keptId) :
    (above.refine below).uid ≠ some keptId ∧ (above.refine below).gid ≠ some keptId := by
  have either {a b : Option Nat} (ha : a ≠ some keptId) (hb : b ≠ some keptId) :
      b.or a ≠ some keptId := by
    intro kept
    rcases Option.or_eq_some_iff.1 kept with below | ⟨_, above⟩
    · exact hb below
    · exact ha above
  exact ⟨either first.1 second.1, either first.2 second.2⟩

theorem Overrides.IsReal.resolve {o : Overrides} (real : o.IsReal) (path : String) :
    (o.resolve path).uid ≠ some keptId ∧ (o.resolve path).gid ≠ some keptId := by
  have all (l : List (String × Meta)) (h : ∀ b ∈ l, b.2.uid ≠ some keptId ∧ b.2.gid ≠ some keptId)
      (found : Meta) (start : found.uid ≠ some keptId ∧ found.gid ≠ some keptId) :
      (l.foldl (fun found b => found.refine b.2) found).uid ≠ some keptId ∧
        (l.foldl (fun found b => found.refine b.2) found).gid ≠ some keptId := by
    induction l generalizing found with
    | nil => exact start
    | cons b rest ih =>
        exact ih (fun b' member => h b' (List.mem_cons_of_mem _ member)) _
          (Meta.refine_ne start (h b List.mem_cons_self))
  exact all _ (fun b member => real b (List.mem_filter.1 member).1) {} ⟨nofun, nofun⟩

/-- An entry that was brought about leaves nothing to do. -/
theorem IsBrought.isDone {before after : FileSystem} (real : o.IsReal)
    (brought : IsBrought env vars o dst D before after e) : IsDone env vars o dst after e := by
  obtain ⟨w, n, asked, found, meets⟩ := brought
  obtain ⟨uid, gid⟩ := owner_of_wanted asked
  have owners := real.resolve (treePath e)
  rw [← uid, ← gid] at owners
  exact ⟨w, D ++ e.place, n, asked, found, meets.settled owners.1 owners.2⟩

end Tree

end Fleet
