/-
  Resolution comes to an end on every catalog.

  * `sameWork` is work that ends in the same way, and leaves the same desk, on every desk whose
    virtual roots are from a catalog;
  * `same_compile`: compiling makes no other calls than `Call.Nested` lists;
  * `same_resolveWithin`: what is done beyond a depth matters only for calls that stand so deep;
  * `resolution_terminates`: no call stands so deep that it would matter what is done there.

  The contents of the two tiers are arbitrary throughout.
-/
import Merchandising.Proofs.Resolver.Desk
import Merchandising.Proofs.Resolver.Nested

namespace Merchandising.Worker

/-- Work that ends in related ways and leaves the same desk, on every desk whose virtual roots are
    from a catalog, and keeps them so. -/
def sameWork (catalog : Catalog) : Correspondence Work Work where
  rel R v w := ∀ d, RootsFrom catalog d → RootsFrom catalog (v.outcome d).2 ∧
    (v.outcome d).2 = (w.outcome d).2 ∧ Related R (v.outcome d).1 (w.outcome d).1
  pure h _ hd := ⟨hd, rfl, h⟩
  throw _ _ hd := ⟨hd, rfl, rfl⟩
  bind := by
    intro α β γ δ R S x y f g hxy hfg d hd
    obtain ⟨hroots, hdesk, hrel⟩ := hxy d hd
    rw [Work.outcome_bind, Work.outcome_bind]
    generalize x.outcome d = o at *
    generalize y.outcome d = o' at *
    obtain ⟨r, d₁⟩ := o
    obtain ⟨r', d₂⟩ := o'
    obtain rfl : d₁ = d₂ := hdesk
    match r, r', hrel with
    | .ok a, .ok b, hab => exact hfg a b hab d₁ hroots
    | .error e, .error e', he => exact ⟨hroots, rfl, he⟩

variable {catalog : Catalog} {α : Type}

theorem sameWork_iff {v w : Work α} : (sameWork catalog).rel Eq v w ↔
    ∀ d, RootsFrom catalog d → RootsFrom catalog (v.outcome d).2 ∧ v.outcome d = w.outcome d := by
  refine forall_congr' fun d => forall_congr' fun _ => and_congr_right fun _ => ?_
  rw [related_eq, and_comm, Prod.ext_iff]

/-- Work does the same as itself if it keeps the virtual roots. -/
theorem sameWork_self {w : Work α}
    (h : ∀ d, RootsFrom catalog d → RootsFrom catalog (w.outcome d).2) :
    (sameWork catalog).rel Eq w w :=
  sameWork_iff.2 fun d hd => ⟨h d hd, rfl⟩

/-! ## One category -/

variable {settings : Settings} {translator : Translator} {ctx : Context}

/-- Compiling makes no other calls than the nested ones. -/
theorem same_compile {r r' : Category → IdSet → Work Compiled} {c : Category} {path : IdSet}
    (h : ∀ k, Call.Nested catalog ctx.store ⟨c, path⟩ k →
      (sameWork catalog).rel Eq (r k.category k.path) (r' k.category k.path)) :
    (sameWork catalog).rel Eq ((compiler settings catalog translator ctx r).compile c path)
      ((compiler settings catalog translator ctx r').compile c path) := by
  have hreport : ∀ e, (sameWork catalog).rel (fun _ _ => True) (Work.report e) (Work.report e) :=
    fun e d hd => ⟨hd, rfl, trivial⟩
  refine Compiler.rel_compile (P := .equal) (fun ho => ?_) hreport
  refine ⟨rfl, rfl, rfl, rfl, fun d hd => ?_, fun d hd => ?_, hreport⟩
  · obtain ⟨hr, hroots, -⟩ := virtualRoot_spec catalog ctx.store c hd
    refine ⟨hroots, rfl, ?_⟩
    simp only [compiler, hr]
    exact ⟨rfl, rfl⟩
  · exact h ⟨d, _⟩ ⟨Call.opens_iff.2 ho, rfl, hd⟩

theorem same_cached {c : Category} {path : IdSet} {v w : Work Compiled}
    (h : (sameWork catalog).rel Eq v w) :
    (sameWork catalog).rel Eq (cached settings ctx c path v) (cached settings ctx c path w) := by
  unfold cached
  cases storedId? c with
  | none => exact h
  | some id =>
    refine (sameWork catalog).bind (sameWork_self fun d hd =>
      hd.of_eq (fromLocal_spec _ path d).2.1.roots) fun e e' he => ?_
    subst he
    cases e with
    | some e => exact (sameWork catalog).pure rfl
    | none =>
      refine (sameWork catalog).bind (sameWork_self fun d hd =>
        hd.of_eq (fromShared_spec _ path d).2.1.roots) fun e e' he => ?_
      subst he
      cases e with
      | some e => exact (sameWork catalog).pure rfl
      | none =>
        refine (sameWork catalog).bind h fun r r' hr => ?_
        subst hr
        refine (sameWork catalog).bind (sameWork_self fun d hd =>
          hd.of_eq (store_spec _ _ d).2.2.1) fun _ _ _ => ?_
        exact (sameWork catalog).pure rfl

/-- What is done beyond a depth matters only for the calls that stand so deep. -/
theorem same_resolveWithin {b b' : Category → IdSet → Work Compiled} (n : Nat) {c : Category}
    {path : IdSet} (h : ∀ k, Call.Inside catalog ctx.store n ⟨c, path⟩ k →
      (sameWork catalog).rel Eq (b k.category k.path) (b' k.category k.path)) :
    (sameWork catalog).rel Eq (resolveWithin settings catalog translator ctx b n c path)
      (resolveWithin settings catalog translator ctx b' n c path) := by
  induction n generalizing c path with
  | zero => exact h _ (.here _)
  | succ n ih =>
    refine same_cached (same_compile fun k hk => ih fun k' hk' => h k' (.deeper hk hk'))

/-! ## Calls -/

variable (catalog translator ctx)

/-- No call stands so deep that it matters what is done there. -/
theorem same_within_depthFor (b b' : Category → IdSet → Work Compiled) (w : Worker) (c : Category)
    (path : IdSet) :
    (sameWork catalog).rel Eq
      (resolveWithin settings catalog translator ctx b (w.depthFor catalog) c path)
      (resolveWithin settings catalog translator ctx b' (w.depthFor catalog) c path) := by
  refine same_resolveWithin _ fun k hk => ?_
  have hle : catalog.size + w.roots.length + 2 ≤ catalog.size + 1 := hk.le_size
  omega

theorem same_resolveOr (b b' : Category → IdSet → Work Compiled) (c : Category) (path : IdSet) :
    (sameWork catalog).rel Eq (resolveOr catalog translator ctx b c path)
      (resolveOr catalog translator ctx b' c path) := by
  refine (sameWork catalog).bind (sameWork_self (w := get) fun d hd => hd) fun d d' h => ?_
  subst h
  exact same_within_depthFor catalog translator ctx b b' d.worker c path

theorem same_buildOr (b b' : Category → IdSet → Work Compiled) (c : Category) (path : IdSet) :
    (sameWork catalog).rel Eq (buildOr catalog translator ctx b c path)
      (buildOr catalog translator ctx b' c path) := by
  refine (sameWork catalog).bind (sameWork_self (w := get) fun d hd => hd) fun d d' h => ?_
  subst h
  refine (sameWork catalog).bind (same_compile fun k _ => ?_) fun r r' hr => ?_
  · exact same_within_depthFor catalog translator ctx b b' d.worker k.category k.path
  · subst hr
    exact (sameWork catalog).pure rfl

theorem same_timed {o : Operation} {v w : Work α} (h : (sameWork catalog).rel Eq v w) :
    (sameWork catalog).rel Eq (Work.timed o v) (Work.timed o w) := by
  refine sameWork_iff.2 fun d hd => ?_
  obtain ⟨hroots, heq⟩ := sameWork_iff.1 h d hd
  rw [Work.outcome_timed, Work.outcome_timed, heq]
  exact ⟨heq ▸ hroots, rfl⟩

theorem same_queryOr (b b' : Category → IdSet → Work Compiled) (c : Category) :
    (sameWork catalog).rel Eq (queryOr catalog translator ctx b c)
      (queryOr catalog translator ctx b' c) := by
  refine same_timed catalog ((sameWork catalog).bind
    (same_resolveOr catalog translator ctx b b' c ∅) fun r r' hr => ?_)
  subst hr
  exact (sameWork catalog).pure rfl

theorem same_mergeOr (b b' : Category → IdSet → Work Compiled) (cs : List Category) :
    (sameWork catalog).rel Eq (mergeOr catalog translator ctx b cs)
      (mergeOr catalog translator ctx b' cs) := by
  refine same_timed catalog ((sameWork catalog).bind ((sameWork catalog).mapM fun c _ =>
    same_resolveOr catalog translator ctx b b' c ∅) fun rs rs' hrs => ?_)
  rw [List.forall₂_eq_eq_eq] at hrs
  subst hrs
  exact (sameWork catalog).pure rfl

/-- **Resolution terminates on every catalog.**  On a desk with any contents of the two tiers, and
    with virtual roots that were looked up in the catalog, none of the calls gets to the depth where
    it would matter what is done beyond it.  Compiling makes nested calls only; on a chain of them
    no id goes past the cycle check twice, and none that was on the path, so that at most one call
    more goes past it than there are ids saved for the store outside the path. -/
theorem resolution_terminates {d : Desk} (hd : RootsFrom catalog d) :
    (∀ beyond c path,
      (resolveOr catalog translator ctx beyond c path).outcome d =
        (resolve catalog translator ctx c path).outcome d ∧
      (buildOr catalog translator ctx beyond c path).outcome d =
        (build catalog translator ctx c path).outcome d ∧
      (queryOr catalog translator ctx beyond c).outcome d =
        (query catalog translator ctx c).outcome d) ∧
    (∀ beyond cs, (mergeOr catalog translator ctx beyond cs).outcome d =
      (merge catalog translator ctx cs).outcome d) ∧
    (∀ settings c path r r', (∀ k, Call.Nested catalog ctx.store ⟨c, path⟩ k →
        (sameWork catalog).rel Eq (r k.category k.path) (r' k.category k.path)) →
      ((compiler settings catalog translator ctx r).compile c path).outcome d =
        ((compiler settings catalog translator ctx r').compile c path).outcome d) ∧
    ∀ k ks, List.IsChain (Call.Nested catalog ctx.store) (k :: ks) →
      (Call.openedIds (k :: ks)).Nodup ∧ (∀ id ∈ Call.openedIds (k :: ks), id ∉ k.path) ∧
      ((k :: ks).filter Call.opens).length ≤ (catalog.idsOutside ctx.store k.path).length + 1 := by
  refine ⟨fun beyond c path => ⟨?_, ?_, ?_⟩, fun beyond cs => ?_, fun settings c path r r' h => ?_,
    fun k ks hks => ⟨(Call.chain_ids hks).1, (Call.chain_ids hks).2, Call.chain_bound hks⟩⟩
  · exact (sameWork_iff.1 (same_resolveOr catalog translator ctx beyond tooDeep c path) d hd).2
  · exact (sameWork_iff.1 (same_buildOr catalog translator ctx beyond tooDeep c path) d hd).2
  · exact (sameWork_iff.1 (same_queryOr catalog translator ctx beyond tooDeep c) d hd).2
  · exact (sameWork_iff.1 (same_mergeOr catalog translator ctx beyond tooDeep cs) d hd).2
  · exact (sameWork_iff.1 (same_compile h) d hd).2

/-- Two virtual categories that are the virtual roots of each other, one of which was looked up. -/
theorem resolution_terminates_circle :
    let red := { Category.ofPath 3 "Red" [1, 2, 3] with isVirtual := true, virtualRoot := some 4 }
    let sale := { Category.ofPath 4 "Sale" [1, 2, 4] with isVirtual := true, virtualRoot := some 3 }
    let catalog := Catalog.ofList [red, sale]
    let t : Translator := ⟨.empty, none, none, fun _ => .exact, 0⟩
    let d : Desk := ⟨{ ofSettings .standard with roots := [((3, 0), some red)] }, .empty, []⟩
    RootsFrom catalog d ∧
      (queryOr catalog t ⟨0, 1⟩ (fun _ _ => pure .unrestricted) red).outcome d =
        (query catalog t ⟨0, 1⟩ red).outcome d := by
  intro red sale catalog t d
  have hd : RootsFrom catalog d := by
    intro store id root h
    by_cases hk : (id, store) = (3, 0)
    · obtain ⟨rfl, rfl⟩ := Prod.mk.inj hk
      obtain rfl : some red = root := Option.some.inj h
      rfl
    · simp [d, List.lookup_cons, beq_eq_false_iff_ne.2 hk] at h
  exact ⟨hd, ((resolution_terminates catalog t ⟨0, 1⟩ hd).1 _ red ∅).2.2⟩

end Merchandising.Worker
