/-
  What a worker leaves as it was, whatever it is asked for.

  * `Work.Keeps` is a property of desks that is so after some work if it was so before;
  * `Worker.Frame` is a property that is kept by everything that a worker does to its desk while it
    compiles for a context: looking at the two tiers, storing, looking up virtual roots; it may
    rely on the categories that are resolved being known ones;
  * `Worker.Frame.keeps_request`: such a property is kept by every request;
  * `Worker.Frame.tagged`: one of them is that all texts of the shared tier have the worker's tag.

  Nothing is asked of the desk: the tiers and the virtual roots may hold anything.
-/
import Merchandising.Proofs.Resolver.Runs

namespace Merchandising

variable {α β : Type} {P : Desk → Prop}

namespace Work

/-- A property of desks is so after some work if it was so before, however the work ends. -/
def Keeps (P : Desk → Prop) (w : Work α) : Prop := ∀ d, P d → P (w.outcome d).2

theorem keeps_pure (a : α) : Keeps P (pure a : Work α) := fun _ hd => hd

theorem keeps_throw (e : Failure) : Keeps P (throw e : Work α) := fun _ hd => hd

theorem Keeps.bind {w : Work α} {f : α → Work β} (hw : Keeps P w) (hf : ∀ a, Keeps P (f a)) :
    Keeps P (w >>= f) := by
  intro d hd
  have hd' := hw d hd
  rw [outcome_bind]
  generalize w.outcome d = o at *
  obtain ⟨r, d'⟩ := o
  cases r with
  | ok a => exact hf a d' hd'
  | error e => exact hd'

theorem keeps_ofExcept (x : Except Failure α) : Keeps P (MonadExcept.ofExcept x : Work α) := by
  cases x with
  | ok a => exact keeps_pure a
  | error e => exact keeps_throw e

theorem keeps_mapM {f : α → Work β} (as : List α) (h : ∀ a ∈ as, Keeps P (f a)) :
    Keeps P (as.mapM f) := by
  induction as with
  | nil =>
    rw [List.mapM_nil]
    exact keeps_pure []
  | cons a as ih =>
    rw [List.mapM_cons]
    refine (h a (by simp)).bind fun b => ?_
    exact (ih fun a' ha' => h a' (by simp [ha'])).bind fun bs => keeps_pure (b :: bs)

end Work

open Work (Keeps keeps_pure)

variable {known : Category → Prop}

/-! ## Compiling one category -/

namespace Compiler

/-- A property that is kept by all that compiling takes from its surroundings, which resolves known
    categories only. -/
structure Kept (P : Desk → Prop) (known : Category → Prop) (s : Compiler Work) : Prop where
  root : ∀ c, Keeps P (s.root c)
  rooted : ∀ c d r, P d → ((s.root c).outcome d).1 = .ok (some r) → known r
  contributors : ∀ c, ∀ d ∈ s.catalog.contributors s.ctx.store c, known d
  resolve : ∀ c path, known c → Keeps P (s.resolve c path)
  report : ∀ e, Keeps P (s.report e)

variable {s : Compiler Work} (h : s.Kept P known) (c : Category) (path : IdSet)
include h

theorem Kept.rootQuery : Keeps P (s.rootQuery c path) := by
  intro d hd
  have hd' := h.root c d hd
  have hknown := h.rooted c d
  unfold Compiler.rootQuery
  rw [Work.outcome_bind]
  generalize (s.root c).outcome d = o at *
  obtain ⟨r, d'⟩ := o
  match r with
  | .error e => exact hd'
  | .ok none => exact hd'
  | .ok (some root) =>
    dsimp only
    split
    · exact (h.resolve root path (hknown root hd rfl)).bind (fun _ => keeps_pure _) d' hd'
    · exact (h.report _).bind (fun _ => keeps_pure _) d' hd'

theorem Kept.baseQuery : Keeps P (s.baseQuery c path) := by
  unfold Compiler.baseQuery
  split
  · exact keeps_pure _
  · split
    · refine (Work.keeps_ofExcept _).bind fun own => ?_
      exact (h.rootQuery c path).bind fun r => keeps_pure _
    · split
      · exact (Work.keeps_ofExcept _).bind fun f => keeps_pure _
      · exact keeps_pure _

theorem Kept.foldChildren (base : Fragment) : Keeps P (s.foldChildren c base path) := by
  refine (Work.keeps_mapM _ fun d hd => h.resolve d path (h.contributors c d ?_)).bind fun _ => ?_
  · exact (List.mem_filter.1 (List.mem_filter.1 hd).1).1
  · exact (Work.keeps_ofExcept _).bind fun statics => keeps_pure _

theorem Kept.compileOpen : Keeps P (s.compileOpen c path) := by
  unfold Compiler.compileOpen
  split
  · exact keeps_pure _
  · refine (h.baseQuery c path).bind fun base => ?_
    have hend : ∀ r : Compiled, Keeps P (do s.report .built; return r) :=
      fun r => (h.report _).bind fun _ => keeps_pure r
    cases base.query with
    | none => exact (keeps_pure base).bind hend
    | some f => exact (h.foldChildren c path f).bind fun folded => (keeps_pure _).bind hend

/-- Compiling keeps what its surroundings keep. -/
theorem Kept.compile : Keeps P (s.compile c path) := by
  unfold Compiler.compile
  split
  · exact h.compileOpen c path
  · split
    · exact (h.report _).bind fun _ => keeps_pure _
    · exact (h.compileOpen c _).bind fun r => keeps_pure _

end Compiler

/-! ## The work of a worker -/

namespace Worker

/-- A property that is kept by everything a worker does to its desk for a context, while it
    resolves known categories only. -/
structure Frame (P : Desk → Prop) (known : Category → Prop) (settings : Settings)
    (catalog : Catalog) (ctx : Context) : Prop where
  configured : ∀ d, P d → d.worker.settings = settings
  saved : ∀ c ∈ catalog.entries, known c
  report : ∀ e, Keeps P (Work.report e)
  root : ∀ c, Keeps P (virtualRoot catalog ctx.store c)
  rooted : ∀ c d r, P d → ((virtualRoot catalog ctx.store c).outcome d).1 = .ok (some r) → known r
  fromLocal : ∀ c id path, known c → storedId? c = some id →
    Keeps P (fromLocal (keyOf settings ctx id) path)
  fromShared : ∀ c id path, known c → storedId? c = some id →
    Keeps P (fromShared (keyOf settings ctx id) path)
  store : ∀ c id r, known c → storedId? c = some id → Keeps P (store (keyOf settings ctx id) r)

namespace Frame

variable {settings : Settings} {catalog : Catalog} {ctx : Context} (translator : Translator)
  (h : Frame P known settings catalog ctx) {c : Category} (path : IdSet)
include h

theorem cached (hc : known c) {w : Work Compiled} (hw : Keeps P w) :
    Keeps P (Worker.cached settings ctx c path w) := by
  unfold Worker.cached
  cases hid : storedId? c with
  | none => exact hw
  | some id =>
    refine (h.fromLocal c id path hc hid).bind fun found => ?_
    cases found with
    | some e => exact keeps_pure _
    | none =>
      refine (h.fromShared c id path hc hid).bind fun found => ?_
      cases found with
      | some e => exact keeps_pure _
      | none => exact hw.bind fun r => (h.store c id _ hc hid).bind fun _ => keeps_pure _

theorem compile {resolve : Category → IdSet → Work Compiled}
    (hresolve : ∀ c path, known c → Keeps P (resolve c path)) (c : Category) :
    Keeps P ((compiler settings catalog translator ctx resolve).compile c path) := by
  have hkept : Compiler.Kept P known (compiler settings catalog translator ctx resolve) :=
    ⟨h.root, h.rooted, fun c d hd => h.saved d (Call.contributors_mem hd).1, hresolve, h.report⟩
  exact hkept.compile c path

theorem resolveWithin (n : Nat) (hc : known c) :
    Keeps P (Worker.resolveWithin settings catalog translator ctx tooDeep n c path) := by
  induction n generalizing c path with
  | zero => exact Work.keeps_throw _
  | succ n ih => exact h.cached path hc (h.compile translator path (fun c path => ih path) c)

theorem resolve (hc : known c) : Keeps P (Worker.resolve catalog translator ctx c path) := by
  intro d hd
  rw [Worker.resolve, resolveOr, Work.outcome_bind_ok (Work.outcome_get d)]
  dsimp only
  rw [h.configured d hd]
  exact h.resolveWithin translator path _ hc d hd

theorem build (c : Category) : Keeps P (Worker.build catalog translator ctx c path) := by
  intro d hd
  rw [Worker.build, buildOr, Work.outcome_bind_ok (Work.outcome_get d)]
  dsimp only
  rw [h.configured d hd]
  refine (h.compile translator path (fun c path hc => ?_) c).bind (fun r => keeps_pure r.query) d hd
  exact h.resolveWithin translator path _ hc

theorem timed {o : Operation} {w : Work α} (hw : Keeps P w) : Keeps P (Work.timed o w) :=
  fun d hd => h.report (.finished o) _ (hw d hd)

end Frame

/-- **What is kept by everything that is done for the contexts of a request is kept by the
    request**, if it passes known categories. -/
theorem Frame.keeps_request {settings : Settings} {catalog : Catalog} (translator : Translator)
    {r : Request} (hctx : ∀ ctx ∈ r.contexts, Frame P known settings catalog ctx)
    (hroot : ∀ store c, Keeps P (virtualRoot catalog store c))
    (hknown : ∀ c ∈ r.categories, known c) :
    Keeps P (r.work catalog translator) := by
  cases r with
  | query ctx c =>
    have h := hctx ctx (by simp [Request.contexts])
    have hresolve := h.resolve translator ∅ (hknown c (by simp [Request.categories]))
    have hquery := h.timed (o := .resolve) (hresolve.bind fun r => keeps_pure r.query)
    exact hquery.bind fun q => keeps_pure _
  | resolve ctx c path =>
    have h := hctx ctx (by simp [Request.contexts])
    have hresolve := h.resolve translator path (hknown c (by simp [Request.categories]))
    exact hresolve.bind fun r => keeps_pure _
  | build ctx c path =>
    have h := hctx ctx (by simp [Request.contexts])
    exact (h.build translator path c).bind fun q => keeps_pure _
  | merge ctx cs =>
    have h := hctx ctx (by simp [Request.contexts])
    have hresolve := Work.keeps_mapM cs fun c hc => h.resolve translator ∅ (hknown c hc)
    have hmerge := h.timed (o := .merge)
      (hresolve.bind fun rs => keeps_pure (Fragment.all (rs.filterMap Compiled.query)))
    exact hmerge.bind fun f => keeps_pure _
  | virtualRoot store c => exact (hroot store c).bind fun r => keeps_pure _

/-- A worker keeps its settings, and gives their tag to all that it stores. -/
theorem Frame.tagged (settings : Settings) (catalog : Catalog) (ctx : Context) :
    Frame (fun d => d.worker.settings = settings ∧ d.shared.Tagged settings.tag) (fun _ => True)
      settings catalog ctx where
  configured _ hd := hd.1
  saved _ _ := trivial
  report _ _ hd := hd
  root c d hd := by
    obtain ⟨hsettings, -, hshared, -⟩ := virtualRoot_leaves catalog ctx.store c d
    exact ⟨hsettings.trans hd.1, hshared ▸ hd.2⟩
  rooted _ _ _ _ _ := trivial
  fromLocal _ id path _ _ d hd := by
    obtain ⟨-, hsame, -⟩ := fromLocal_spec (keyOf settings ctx id) path d
    exact ⟨hsame.settings.trans hd.1, hsame.shared ▸ hd.2⟩
  fromShared _ id path _ _ d hd := by
    obtain ⟨-, hsame, -⟩ := fromShared_spec (keyOf settings ctx id) path d
    exact ⟨hsame.settings.trans hd.1, hsame.shared ▸ hd.2⟩
  store _ id r _ _ d hd := by
    obtain ⟨-, hsettings, -, hstore⟩ := store_spec (keyOf settings ctx id) r d
    refine ⟨hsettings.trans hd.1, ?_⟩
    split at hstore
    · rw [hstore.1]
      exact hd.2.save (by simp [tags, hd.1])
    · rw [hstore.1]
      exact hd.2

end Worker

end Merchandising
