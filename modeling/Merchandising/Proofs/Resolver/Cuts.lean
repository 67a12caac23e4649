/-
  What is cut is what was consulted and is on the path.

  * `Work.Ensures` is work that keeps a property of desks, and ends well only with values of which
    something is so;
  * `Compiled.CutsExactly` is an outcome that was cut where it consulted the path, and nowhere else;
  * `Compiler.Tallies.compileOpen`: compiling past the cycle check makes such outcomes, if the
    categories that are referred to have such;
  * `Worker.cached_eq_ok` says how looking for a category may end, `Worker.cuts_resolveWithin` that it
    ends with such an outcome.

  A category is compiled with its own id on the path, so that a circle back to it is cut; the id is
  taken off again where the category was looked for.  A draft is not looked for, and its id stays
  among those that are cut: hence all categories that are referred to have to be `Settled`.
-/
import Merchandising.Proofs.Resolver.Foreign

namespace Merchandising

variable {α β : Type} {P : Desk → Prop}

/-! ## What work ends with -/

namespace Work

/-- A property of desks is kept, and of a value at the end something is so. -/
def Ensures (P : Desk → Prop) (Q : α → Prop) (w : Work α) : Prop :=
  ∀ d, P d → P (w.outcome d).2 ∧ ∀ a, (w.outcome d).1 = .ok a → Q a

theorem Keeps.ensures {w : Work α} (h : Keeps P w) : Ensures P (fun _ => True) w :=
  fun d hd => ⟨h d hd, fun _ _ => trivial⟩

theorem ensures_pure {Q : α → Prop} {a : α} (h : Q a) : Ensures P Q (pure a : Work α) := by
  refine fun d hd => ⟨hd, fun b hb => ?_⟩
  obtain rfl := Except.ok.inj hb
  exact h

theorem ensures_throw {Q : α → Prop} (e : Failure) : Ensures P Q (throw e : Work α) :=
  fun _ hd => ⟨hd, fun _ h => nomatch h⟩

theorem Ensures.bind {Q : α → Prop} {R : β → Prop} {w : Work α} {f : α → Work β}
    (hw : Ensures P Q w) (hf : ∀ a, Q a → Ensures P R (f a)) : Ensures P R (w >>= f) := by
  intro d hd
  obtain ⟨hd', hvalue⟩ := hw d hd
  rw [outcome_bind]
  generalize w.outcome d = o at *
  obtain ⟨r, d'⟩ := o
  cases r with
  | ok a => exact hf a (hvalue a rfl) d' hd'
  | error e => exact ⟨hd', fun _ h => nomatch h⟩

theorem ensures_ofExcept (x : Except Failure α) :
    Ensures P (fun _ => True) (MonadExcept.ofExcept x : Work α) :=
  (keeps_ofExcept x).ensures

theorem ensures_mapM {Q : β → Prop} {f : α → Work β} (as : List α)
    (h : ∀ a ∈ as, Ensures P Q (f a)) : Ensures P (fun bs => ∀ b ∈ bs, Q b) (as.mapM f) := by
  induction as with
  | nil =>
    rw [List.mapM_nil]
    exact ensures_pure (by simp)
  | cons a as ih =>
    rw [List.mapM_cons]
    refine (h a (by simp)).bind fun b hb => ?_
    refine (ih fun a' ha' => h a' (by simp [ha'])).bind fun bs hbs => ?_
    exact ensures_pure (List.forall_mem_cons.2 ⟨hb, hbs⟩)

end Work

open Work (Ensures ensures_pure)

/-! ## Outcomes -/

namespace Compiled

/-- What is cut is what was consulted and is on the path. -/
def CutsExactly (path : IdSet) (r : Compiled) : Prop :=
  ∀ id, id ∈ r.cut ↔ id ∈ r.consulted ∧ id ∈ path

variable {path : IdSet}

theorem cutsExactly_unrestricted : CutsExactly path .unrestricted := by
  intro id
  simp [unrestricted]

theorem cutsExactly_look (ids : List CategoryId) : CutsExactly path (look path ids) := by
  intro id
  simp [look]

theorem CutsExactly.absorb {a b : Compiled} (ha : CutsExactly path a) (hb : CutsExactly path b) :
    CutsExactly path (a.absorb b) := by
  intro id
  simp only [Compiled.absorb, IdSet.mem_union, ha id, hb id, or_and_right]

theorem CutsExactly.absorb_all {bs : List Compiled} (hbs : ∀ b ∈ bs, CutsExactly path b)
    {a : Compiled} (ha : CutsExactly path a) : CutsExactly path (bs.foldl Compiled.absorb a) := by
  induction bs generalizing a with
  | nil => exact ha
  | cons b bs ih =>
    rw [List.forall_mem_cons] at hbs
    exact ih hbs.2 (ha.absorb hbs.1)

/-- What was compiled with an id on the path cuts exactly without it, once the id is taken off. -/
theorem CutsExactly.close {id : CategoryId} {y : Compiled} (hy : CutsExactly (path.insert id) y)
    (hid : id ∉ path) :
    CutsExactly path
      { y.absorb (look path [id]) with cut := (y.absorb (look path [id])).cut.erase id } := by
  intro x
  have hx : x ∈ path → x ≠ id := fun h he => hid (he ▸ h)
  simp only [Compiled.absorb, look, IdSet.mem_erase, IdSet.mem_union, hy x, IdSet.mem_insert,
    IdSet.mem_ofList, IdSet.mem_filter, List.mem_singleton, decide_eq_true_eq]
  tauto

end Compiled

open Compiled (CutsExactly)

/-! ## Compiling one category -/

variable {known : Category → Prop}

namespace Compiler

/-- Surroundings that find known roots only, and in which known categories have outcomes that cut
    exactly. -/
structure Tallies (P : Desk → Prop) (known : Category → Prop) (s : Compiler Work) : Prop where
  root : ∀ c, Ensures P (fun r => ∀ x ∈ r, known x) (s.root c)
  contributors : ∀ c, ∀ d ∈ s.catalog.contributors s.ctx.store c, known d
  resolve : ∀ c path, known c → Ensures P (CutsExactly path) (s.resolve c path)
  report : ∀ e, Work.Keeps P (s.report e)

variable {s : Compiler Work} (h : s.Tallies P known) (c : Category) (path : IdSet)
include h

theorem Tallies.rootQuery : Ensures P (CutsExactly path) (s.rootQuery c path) := by
  refine (h.root c).bind fun r hr => ?_
  cases r with
  | none => exact ensures_pure Compiled.cutsExactly_unrestricted
  | some root =>
    have hseen : CutsExactly path (.look path root.path) := Compiled.cutsExactly_look root.path
    dsimp only
    split
    · refine (h.resolve root path (hr root rfl)).bind fun y hy => ?_
      exact ensures_pure (hy.absorb hseen)
    · exact (h.report _).ensures.bind fun _ _ => ensures_pure hseen

theorem Tallies.baseQuery : Ensures P (CutsExactly path) (s.baseQuery c path) := by
  unfold Compiler.baseQuery
  split
  · exact ensures_pure Compiled.cutsExactly_unrestricted
  · split
    · refine (Work.ensures_ofExcept _).bind fun own _ => ?_
      exact (h.rootQuery c path).bind fun r hr => ensures_pure hr
    · split
      · refine (Work.ensures_ofExcept _).bind fun f _ => ?_
        exact ensures_pure Compiled.cutsExactly_unrestricted
      · exact ensures_pure Compiled.cutsExactly_unrestricted

theorem Tallies.foldChildren (base : Fragment) :
    Ensures P (CutsExactly path) (s.foldChildren c base path) := by
  refine (Work.ensures_mapM _ fun d hd => h.resolve d path (h.contributors c d ?_)).bind
    fun resolved hresolved => ?_
  · exact (List.mem_filter.1 (List.mem_filter.1 hd).1).1
  · refine (Work.ensures_ofExcept _).bind fun statics _ => ensures_pure ?_
    exact Compiled.CutsExactly.absorb_all hresolved (Compiled.cutsExactly_look _)

/-- Compiling past the cycle check cuts exactly. -/
theorem Tallies.compileOpen : Ensures P (CutsExactly path) (s.compileOpen c path) := by
  unfold Compiler.compileOpen
  split
  · exact ensures_pure Compiled.cutsExactly_unrestricted
  · refine (h.baseQuery c path).bind fun base hbase => ?_
    have hend : ∀ r : Compiled, CutsExactly path r →
        Ensures P (CutsExactly path) (do s.report .built; return r) :=
      fun r hr => (h.report _).ensures.bind fun _ _ => ensures_pure hr
    cases base.query with
    | none => exact (ensures_pure hbase).bind hend
    | some f =>
      refine (h.foldChildren c path f).bind fun folded hfolded => ?_
      exact (ensures_pure (hfolded.absorb hbase)).bind hend

/-- Compiling cuts exactly, once a category that is not on the path is no longer among its cuts. -/
theorem Tallies.compile {id : CategoryId} (hid : c.id = some id) :
    Ensures P (fun r => CutsExactly path (if id ∈ path then r else { r with cut := r.cut.erase id }))
      (s.compile c path) := by
  unfold Compiler.compile
  rw [hid]
  dsimp only
  by_cases hp : id ∈ path
  · simp only [if_pos hp]
    exact (h.report _).ensures.bind fun _ _ => ensures_pure (Compiled.cutsExactly_look [id])
  · simp only [if_neg hp]
    exact (h.compileOpen c _).bind fun y hy => ensures_pure (hy.close hp)

end Compiler

/-! ## Looking for a category -/

namespace Worker

/-- A category that is stored under its id. -/
def Settled (c : Category) : Prop := (storedId? c).isSome

/-- A fitting entry was consulted nowhere on the path. -/
theorem cutsExactly_ofStored {path : IdSet} {e : StoredQuery} (h : fits path e = true) :
    CutsExactly path (ofStored e) := by
  intro id
  have hdisjoint : ∀ id ∈ e.consulted, id ∉ path := by
    simpa [fits, IdSet.meets, IdSet.mem_def] using h
  simp only [ofStored, IdSet.notMem_empty, false_iff, not_and]
  exact hdisjoint id

/-- The desk after looking for a category in both tiers. -/
def searched (key : CacheKey) (path : IdSet) (d : Desk) : Desk :=
  ((fromShared key path).outcome ((fromLocal key path).outcome d).2).2

section
variable {settings : Settings} {ctx : Context} {c : Category} {path : IdSet} {w : Work Compiled}

/-- The outcome of a category that was compiled, whose own id counts as cut only if it was on the
    path before. -/
def closed (path : IdSet) (id : CategoryId) (r : Compiled) : Compiled :=
  if id ∈ path then r else { r with cut := r.cut.erase id }

@[simp] theorem query_closed (path : IdSet) (id : CategoryId) (r : Compiled) :
    (closed path id r).query = r.query := by
  unfold closed
  split <;> rfl

@[simp] theorem consulted_closed (path : IdSet) (id : CategoryId) (r : Compiled) :
    (closed path id r).consulted = r.consulted := by
  unfold closed
  split <;> rfl

/-- Looking for a category ends with a fitting entry of one of the tiers, or with what was compiled,
    which is given to both tiers. -/
theorem outcome_cached {id : CategoryId} (hid : storedId? c = some id) (d : Desk) :
    let key := keyOf settings ctx id
    (cached settings ctx c path w).outcome d =
      match d.worker.cache.entries[key]?.filter (fits path) with
      | some e => (.ok (ofStored e), ((fromLocal key path).outcome d).2)
      | none =>
        match (sharedQuery? d.shared key).filter (fits path) with
        | some e => (.ok (ofStored e), searched key path d)
        | none =>
          match w.outcome (searched key path d) with
          | (.ok r, d₁) =>
            (.ok (closed path id r), ((store key (closed path id r)).outcome d₁).2)
          | (.error e, d₁) => (.error e, d₁) := by
  simp only [cached, hid]
  generalize keyOf settings ctx id = key
  obtain ⟨hlocal, hsame, -⟩ := fromLocal_spec key path d
  obtain ⟨hshared, -⟩ := fromShared_spec key path ((fromLocal key path).outcome d).2
  rw [hsame.shared] at hshared
  rw [Work.outcome_bind_ok (Prod.ext hlocal rfl)]
  cases d.worker.cache.entries[key]?.filter (fits path) with
  | some e => rfl
  | none =>
    dsimp only
    rw [Work.outcome_bind_ok (Prod.ext hshared rfl)]
    cases (sharedQuery? d.shared key).filter (fits path) with
    | some e => rfl
    | none =>
      dsimp only
      rw [Work.outcome_bind, searched]
      generalize w.outcome ((fromShared key path).outcome ((fromLocal key path).outcome d).2).2 = o
      obtain ⟨y, d₁⟩ := o
      cases y with
      | error e => rfl
      | ok y =>
        have hstore := (store_spec key (closed path id y) d₁).1
        exact Work.outcome_bind_ok (Prod.ext hstore rfl) _

/-- The two tiers are searched without looking up a virtual root. -/
theorem searched_spec (key : CacheKey) (path : IdSet) (d : Desk) :
    (searched key path d).worker.settings = d.worker.settings ∧
      (searched key path d).worker.roots = d.worker.roots ∧
      (searched key path d).shared = d.shared := by
  obtain ⟨-, hlocal, -⟩ := fromLocal_spec key path d
  obtain ⟨-, hshared, -⟩ := fromShared_spec key path ((fromLocal key path).outcome d).2
  exact ⟨hshared.settings.trans hlocal.settings, hshared.roots.trans hlocal.roots,
    hshared.shared.trans hlocal.shared⟩

/-- A category that is looked for ends with an outcome that cuts exactly, if it does when it is
    compiled. -/
theorem cuts_cached {id : CategoryId} (hid : storedId? c = some id)
    (hw : Ensures (RootsWithin Settled) (fun r => CutsExactly path (closed path id r)) w) :
    Ensures (RootsWithin Settled) (CutsExactly path) (cached settings ctx c path w) := by
  intro d hd
  obtain ⟨-, hsame, -⟩ := fromLocal_spec (keyOf settings ctx id) path d
  have hsearched := hd.of_eq (searched_spec (keyOf settings ctx id) path d).2.1
  obtain ⟨hafter, hcuts⟩ := hw _ hsearched
  rw [outcome_cached hid]
  generalize keyOf settings ctx id = key at *
  split
  · rename_i e he
    refine ⟨hd.of_eq hsame.roots, fun r hr => ?_⟩
    obtain rfl := Except.ok.inj hr
    exact cutsExactly_ofStored (Option.filter_eq_some_iff.1 he).2
  · split
    · rename_i e he
      refine ⟨hsearched, fun r hr => ?_⟩
      obtain rfl := Except.ok.inj hr
      exact cutsExactly_ofStored (Option.filter_eq_some_iff.1 he).2
    · generalize w.outcome (searched key path d) = o at *
      obtain ⟨y, d₁⟩ := o
      cases y with
      | error e => exact ⟨hafter, fun _ h => nomatch h⟩
      | ok y =>
        refine ⟨hafter.of_eq (store_spec key _ d₁).2.2.1, fun r hr => ?_⟩
        obtain rfl := Except.ok.inj hr
        exact hcuts y rfl

end

section
variable {catalog : Catalog} (hcatalog : ∀ c ∈ catalog.entries, Settled c) (settings : Settings)
  (translator : Translator) (ctx : Context)
include hcatalog

/-- **A category that is looked for is cut exactly**, whatever the tiers hold. -/
theorem cuts_resolveWithin (n : Nat) {c : Category} (hc : Settled c) (path : IdSet) :
    Ensures (RootsWithin Settled) (CutsExactly path)
      (resolveWithin settings catalog translator ctx tooDeep n c path) := by
  induction n generalizing c path with
  | zero => exact Work.ensures_throw _
  | succ n ih =>
    obtain ⟨id, hid⟩ := Option.isSome_iff_exists.1 hc
    have htallies : Compiler.Tallies (RootsWithin Settled) Settled
        (compiler settings catalog translator ctx
          (resolveWithin settings catalog translator ctx tooDeep n)) :=
      { root := fun c d hd => ⟨hd.virtualRoot hcatalog ctx.store c, fun r hr x hx =>
          hd.found hcatalog ctx.store c (hr.trans (congrArg Except.ok hx))⟩
        contributors := fun c d hd => hcatalog d (Call.contributors_mem hd).1
        resolve := fun c path hc => ih hc path
        report := fun e d hd => hd }
    exact cuts_cached hid (htallies.compile c path (id_of_storedId? hid))

/-- The same for a call. -/
theorem cuts_resolve {c : Category} (hc : Settled c) {path : IdSet} {d d' : Desk} {r : Compiled}
    (hd : RootsWithin Settled d)
    (h : (resolve catalog translator ctx c path).outcome d = (.ok r, d')) : CutsExactly path r := by
  rw [resolve, resolveOr, Work.outcome_bind_ok (Work.outcome_get d)] at h
  exact (cuts_resolveWithin hcatalog _ translator ctx _ hc path d hd).2 r (congrArg Prod.fst h)

end

end Worker

end Merchandising
