/-
  Previews of categories that were never saved.

  * `Worker.RootYields` is what the virtual root of a category contributes on a desk, `Worker.Adds`
    what the categories that are stored below its path add;
  * `Worker.preview_exact`: a preview is made of its rule and these;
  * `Preview` is a preview beside a saved category, whose products are added to it
    (`Worker.preview_adds_siblings`).

  The path of a category that was never saved is that of its parent, so that what is stored beside it
  lies below its path.
-/
import Merchandising.Proofs.Resolver.Selection

namespace Merchandising

namespace Worker

variable (w : Worker) (catalog : Catalog) (translator : Translator) (ctx : Context)

/-- How a worker resolves what a category refers to that it builds. -/
def resolveNested : Category → IdSet → Work Compiled :=
  resolveWithin w.settings catalog translator ctx tooDeep (w.depthFor catalog)

/-- What the virtual root of a category contributes on a desk: nothing, if there is none or the path
    covers it, and otherwise what it is resolved to. -/
def RootYields (d : Desk) (c : Category) (path : IdSet) (q : Option Fragment) : Prop :=
  ∃ root d₁, (virtualRoot catalog ctx.store c).outcome d = (.ok root, d₁) ∧
    match root with
    | none => q = none
    | some r => ((∃ id ∈ r.path, id ∈ path) ∧ q = none) ∨
      (∀ id ∈ r.path, id ∉ path) ∧ ∃ y d₂,
        (w.resolveNested catalog translator ctx r path).outcome d₁ = (.ok y, d₂) ∧ y.query = q

/-- What the active categories add that are stored below the path of a category, and not on the path
    it is compiled on: the virtual ones what they are resolved to, the static ones a test of their
    ids. -/
def Adds (c : Category) (path : IdSet) (additions : List Fragment) : Prop :=
  let below := (catalog.contributors ctx.store c).filter fun x => x.id.any fun id => id ∉ path
  ∃ resolved statics,
    List.Forall₂ (fun x y => ∃ d₁ d₂,
      (w.resolveNested catalog translator ctx x path).outcome d₁ = (.ok y, d₂))
      (below.filter Category.isVirtual) resolved ∧
    (compiler w.settings catalog translator ctx
        (w.resolveNested catalog translator ctx)).staticAdditions c
      ((below.filter fun x => !x.isVirtual).filterMap Category.id) = .ok statics ∧
    additions = resolved.filterMap Compiled.query ++ statics

variable {w catalog translator ctx} {c : Category} {path : IdSet} {d d' : Desk}

theorem rootYields_of_rootQuery {y : Compiled}
    (h : ((compiler w.settings catalog translator ctx
      (w.resolveNested catalog translator ctx)).rootQuery c path).outcome d = (.ok y, d')) :
    w.RootYields catalog translator ctx d c path y.query := by
  obtain ⟨root, d₁, hroot, h⟩ := Work.outcome_bind_eq_ok.1 h
  refine ⟨root, d₁, hroot, ?_⟩
  cases root with
  | none =>
    rw [← Work.outcome_pure_ok h]
    rfl
  | some r =>
    dsimp only at h ⊢
    split at h
    · rename_i hcut
      obtain ⟨z, d₂, hz, h⟩ := Work.outcome_bind_eq_ok.1 h
      rw [← Work.outcome_pure_ok h]
      exact Or.inr ⟨Compiled.cut_look_isEmpty.1 hcut, z, d₂, hz, rfl⟩
    · rename_i hcut
      obtain ⟨_, d₂, -, h⟩ := Work.outcome_bind_eq_ok.1 h
      rw [← Work.outcome_pure_ok h]
      refine Or.inl ⟨?_, rfl⟩
      rw [Compiled.cut_look_isEmpty] at hcut
      simpa using hcut

theorem adds_of_foldChildren {base : Fragment} {y : Compiled}
    (h : ((compiler w.settings catalog translator ctx
      (w.resolveNested catalog translator ctx)).foldChildren c base path).outcome d = (.ok y, d')) :
    ∃ additions, w.Adds catalog translator ctx c path additions ∧
      y.query = some (withAdditions c base additions) := by
  obtain ⟨resolved, d₁, hresolved, h⟩ := Work.outcome_bind_eq_ok.1 h
  obtain ⟨statics, d₂, hstatics, h⟩ := Work.outcome_bind_eq_ok.1 h
  rw [← Work.outcome_pure_ok h]
  refine ⟨_, ⟨resolved, statics, Work.outcome_mapM_ok hresolved, ?_, rfl⟩, rfl⟩
  exact (Work.outcome_ofExcept_ok hstatics).1

/-- Nothing is added if nothing that is active and off the path is stored below. -/
theorem Adds.eq_nil {additions : List Fragment} (h : w.Adds catalog translator ctx c path additions)
    (hnone : ∀ x id, ¬ OpenBelow catalog ctx.store c path x id) : additions = [] := by
  have hbelow : ((catalog.contributors ctx.store c).filter fun x => x.id.any fun id => id ∉ path) =
      [] := by
    refine List.eq_nil_iff_forall_not_mem.2 fun x hx => ?_
    obtain ⟨⟨id, hopen⟩, -⟩ := mem_openContributors.1 hx
    exact hnone x id hopen
  obtain ⟨resolved, statics, hresolved, hstatics, rfl⟩ := h
  rw [hbelow] at hresolved hstatics
  obtain rfl := List.forall₂_nil_left_iff.1 hresolved
  obtain rfl := Except.ok.inj hstatics
  rfl

/-- **A preview of an active virtual category that was never saved** is its rule within its virtual
    root, and what is stored below its path is added to that; so it is no more than the former only
    if nothing that is active and off the path is stored there. -/
theorem preview_exact {q : Option Fragment} (hid : c.id = none) (hactive : c.isActive = true)
    (hvirtual : c.isVirtual = true)
    (h : (build catalog translator ctx c path).outcome d = (.ok q, d')) :
    ∃ own root, translator.rule ctx c.rule = .ok own ∧
      d.worker.RootYields catalog translator ctx d c path root ∧
      let base := withinRoot (own.map fun f => f.named c.label) root
      (base = none → q = none) ∧
      (∀ f, base = some f → ∃ additions, d.worker.Adds catalog translator ctx c path additions ∧
        q = some (withAdditions c f additions)) ∧
      ((∀ x id, ¬ OpenBelow catalog ctx.store c path x id) → q = base) := by
  rw [build, buildOr, Work.outcome_bind_ok (Work.outcome_get d)] at h
  obtain ⟨r, d₁, hr, h⟩ := Work.outcome_bind_eq_ok.1 h
  obtain rfl : r.query = q := Work.outcome_pure_ok h
  rw [Compiler.compile, hid] at hr
  dsimp only at hr
  rw [Compiler.compileOpen, if_neg (by simp [hactive])] at hr
  obtain ⟨base, d₂, hbase, hr⟩ := Work.outcome_bind_eq_ok.1 hr
  rw [Compiler.baseQuery, if_neg (by simp [hactive]), if_pos hvirtual] at hbase
  obtain ⟨own, d₃, hown, hbase⟩ := Work.outcome_bind_eq_ok.1 hbase
  obtain ⟨hown, rfl⟩ := Work.outcome_ofExcept_ok hown
  obtain ⟨y, d₄, hy, hbase⟩ := Work.outcome_bind_eq_ok.1 hbase
  obtain rfl := Work.outcome_pure_ok hbase
  refine ⟨own, y.query, hown, rootYields_of_rootQuery hy, ?_⟩
  dsimp only at hr ⊢
  generalize withinRoot (own.map fun f => f.named c.label) y.query = base at hr ⊢
  have hend : ∀ {r' : Compiled} {d₅ : Desk},
      (do Work.report .built; return r' : Work Compiled).outcome d₅ = (.ok r, d₁) → r' = r :=
    fun h => Work.outcome_pure_ok h
  cases base with
  | none =>
    obtain rfl := hend hr
    refine ⟨fun _ => rfl, ?_, fun _ => rfl⟩
    rintro f ⟨⟩
  | some f =>
    obtain ⟨folded, d₅, hfolded, hr⟩ := Work.outcome_bind_eq_ok.1 hr
    obtain rfl := hend hr
    obtain ⟨additions, hadds, hquery⟩ := adds_of_foldChildren hfolded
    refine ⟨?_, fun g hg => ?_, fun hnone => ?_⟩
    · rintro ⟨⟩
    · obtain rfl := Option.some.inj hg
      exact ⟨additions, hadds, hquery⟩
    · obtain rfl := hadds.eq_nil hnone
      exact hquery

end Worker

/-! ## A preview beside a saved category -/

/-- A path leads from the root of the tree through saved categories. -/
def Catalog.LeadsThrough (catalog : Catalog) (store : StoreId) (path : List CategoryId) : Prop :=
  ∀ i (h : i < path.length), ∃ a ∈ catalog.entries, a.store = store ∧ a.id = some path[i] ∧
    a.path = path.take (i + 1)

namespace Preview

def top : Category := .top 1 "Root"

def home : Category := top.child 2 "Home"

/-- A static category below the home category. -/
def boots : Category := home.child 3 "Boots"

/-- A preview of a virtual category below the home category, beside the boots. -/
def red : Category :=
  { home with
    id := none
    name := "Red"
    isVirtual := true
    rule := .ofConditions .all [⟨"color", .equal, .single (.text "red")⟩] }

def catalog : Catalog := .ofList [top, home, boots]

def rules : Translator := ⟨.standard, none, none, fun _ => .exact, 0⟩

def ctx : Context := ⟨0, 1⟩

/-- The desk of a worker that has not worked yet. -/
def desk : Desk := ⟨.ofSettings .standard, .empty, []⟩

/-- What the rule of the preview is translated to. -/
def own : Fragment := .term "color" (.text "red")

theorem rule_red : rules.rule ctx red.rule = .ok (some own) := rfl

theorem entries_catalog : catalog.entries = [top, home, boots] := rfl

theorem leadsThrough_red : catalog.LeadsThrough 0 red.path := by
  intro i h
  match i, h with
  | 0, _ => exact ⟨top, by simp [entries_catalog], rfl, rfl, rfl⟩
  | 1, _ => exact ⟨home, by simp [entries_catalog], rfl, rfl, rfl⟩

/-- Only the boots are stored below its path. -/
theorem below_red {path : IdSet} {x : Category} {id : CategoryId}
    (h : OpenBelow catalog ctx.store red path x id) : x = boots ∧ id = 3 := by
  have hx := h.saved
  rw [entries_catalog] at hx
  simp only [List.mem_cons, List.not_mem_nil, or_false] at hx
  rcases hx with rfl | rfl | rfl
  · exact absurd h.below (by decide)
  · exact absurd rfl h.proper
  · exact ⟨rfl, (Option.some.inj h.hasId).symm⟩

/-- It has no virtual root. -/
theorem rootYields_red {path : IdSet} {root : Option Fragment}
    (h : desk.worker.RootYields catalog rules ctx desk red path root) : root = none := by
  obtain ⟨r, d₁, hr, h⟩ := h
  obtain rfl : none = r := Except.ok.inj (congrArg Prod.fst hr)
  exact h

end Preview

namespace Worker

open Preview

/-- What can be checked of the outcome of a preview is so of a preview that is built. -/
theorem build_red (path : IdSet) (p : Option Fragment → Bool)
    (h : ((build catalog rules ctx red path).outcome desk).1.toOption.any p = true) :
    ∃ q d', (build catalog rules ctx red path).outcome desk = (.ok q, d') ∧ p q = true := by
  obtain ⟨q, hq, hp⟩ := (Option.any_eq_true _ _).1 h
  exact ⟨q, _, Prod.ext (Epoch.toOption_eq_some.1 hq) rfl, hp⟩

/-- Where the boots are on the path, the preview is its rule. -/
theorem preview_exact_covered :
    ∃ d', (build catalog rules ctx red (.ofList [3])).outcome desk =
      (.ok (some (own.named red.label)), d') := by
  obtain ⟨q, d', h, -⟩ := build_red (.ofList [3]) (fun _ => true) (by decide +kernel)
  obtain ⟨o, root, hown, hroot, -, -, hexact⟩ := preview_exact rfl rfl rfl h
  obtain rfl : some own = o := Except.ok.inj (rule_red.symm.trans hown)
  obtain rfl := rootYields_red hroot
  refine ⟨d', h.trans ?_⟩
  rw [hexact fun x id hx => ?_]
  · rfl
  · obtain ⟨-, rfl⟩ := below_red hx
    exact hx.outside (by decide)

/-- **What is stored beside a category that was never saved is added to its preview**: its path is that
    of its parent, and everything below the parent counts as its descendant. -/
theorem preview_adds_siblings :
    red.id = none ∧ red.isActive = true ∧ red.isVirtual = true ∧
      catalog.LeadsThrough ctx.store red.path ∧
      ∃ q d', (build catalog rules ctx red ∅).outcome desk = (.ok q, d') ∧
        ∀ own root, rules.rule ctx red.rule = .ok own →
          desk.worker.RootYields catalog rules ctx desk red ∅ root →
          q ≠ withinRoot (own.map fun f => f.named red.label) root := by
  refine ⟨rfl, rfl, rfl, leadsThrough_red, ?_⟩
  -- the boots are matched, and are not red
  obtain ⟨q, d', h, hboots⟩ := build_red ∅
    (fun q => q.any fun f => f.holds readsFields [("category_ids", .int 3)]) (by decide +kernel)
  refine ⟨q, d', h, fun o root hown hroot hq => ?_⟩
  obtain rfl : some own = o := Except.ok.inj (rule_red.symm.trans hown)
  obtain rfl := rootYields_red hroot
  rw [hq] at hboots
  have hnot : (own.named red.label).holds readsFields [("category_ids", .int 3)] = false := by decide
  exact absurd (hnot.symm.trans hboots) (by decide)

end Worker

end Merchandising
