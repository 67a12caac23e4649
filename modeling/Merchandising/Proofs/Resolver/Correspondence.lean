/-
  Compiling in two surroundings that correspond.

  * `Related` relates two outcomes: both fail in the same way, or their values are related;
  * a `Correspondence` of two monads relates their programs; it is respected by values, failures and
    sequences of programs, and so by `mapM`;
  * a `PathRelation` relates compiled queries on a path, and is kept by what `Compiler.compile`
    does with them;
  * `Compiler.rel_compile`: if two compilers correspond in how they find roots and in how they
    resolve the categories that `Compiler.Refers` lists, they correspond in how they compile.
-/
import Mathlib.Data.List.Forall2
import Merchandising.Resolver.Fresh

namespace Merchandising

variable {α β γ : Type}

/-- Both fail in the same way, or their values are related. -/
def Related (R : α → β → Prop) : Except Failure α → Except Failure β → Prop
  | .ok a, .ok b => R a b
  | .error e, .error e' => e = e'
  | _, _ => False

theorem related_eq {x y : Except Failure α} : Related Eq x y ↔ x = y := by
  cases x <;> cases y <;> simp [Related]

/-- How the programs of two monads correspond, given how their values are related. -/
structure Correspondence (m n : Type → Type) [Monad m] [Monad n] [MonadExceptOf Failure m]
    [MonadExceptOf Failure n] where
  rel : {α β : Type} → (α → β → Prop) → m α → n β → Prop
  pure : ∀ {α β : Type} {R : α → β → Prop} {a : α} {b : β}, R a b → rel R (pure a) (pure b)
  throw : ∀ {α β : Type} {R : α → β → Prop} (e : Failure), rel R (throw e) (throw e)
  bind : ∀ {α β γ δ : Type} {R : α → β → Prop} {S : γ → δ → Prop} {x : m α} {y : n β}
    {f : α → m γ} {g : β → n δ}, rel R x y → (∀ a b, R a b → rel S (f a) (g b)) →
    rel S (x >>= f) (y >>= g)

/-- How compiled queries on a path are related. -/
structure PathRelation where
  rel : IdSet → Compiled → Compiled → Prop
  query : ∀ {path a b}, rel path a b → a.query = b.query
  unrestricted : ∀ {path}, rel path .unrestricted .unrestricted
  look : ∀ {path} (ids : List CategoryId), rel path (.look path ids) (.look path ids)
  withQuery : ∀ {path a b} (q : Option Fragment), rel path a b →
    rel path { a with query := q } { b with query := q }
  absorb : ∀ {path a b a' b'}, rel path a b → rel path a' b' →
    rel path (a.absorb a') (b.absorb b')
  shrink : ∀ {path id a b}, rel (path.insert id) a b → rel path a b

/-- Compiled queries are equal. -/
def PathRelation.equal : PathRelation where
  rel _ a b := a = b
  query h := by rw [h]
  unrestricted := rfl
  look _ := rfl
  withQuery _ h := by rw [h]
  absorb h h' := by rw [h, h']
  shrink h := h

namespace Correspondence

variable {m n : Type → Type} [Monad m] [Monad n] [MonadExceptOf Failure m]
  [MonadExceptOf Failure n] (K : Correspondence m n)

theorem ofExcept {R : α → α → Prop} (hR : ∀ a, R a a) (x : Except Failure α) :
    K.rel R (MonadExcept.ofExcept x) (MonadExcept.ofExcept x) := by
  cases x with
  | error e => exact K.throw e
  | ok a => exact K.pure (hR a)

theorem mapM [LawfulMonad m] [LawfulMonad n] {R : β → γ → Prop} {f : α → m β} {g : α → n γ}
    {as : List α} (h : ∀ a ∈ as, K.rel R (f a) (g a)) :
    K.rel (List.Forall₂ R) (as.mapM f) (as.mapM g) := by
  induction as with
  | nil =>
    simp only [List.mapM_nil]
    exact K.pure .nil
  | cons a as ih =>
    simp only [List.mapM_cons]
    refine K.bind (h a (by simp)) fun b c hbc => ?_
    refine K.bind (ih fun a' ha' => h a' (by simp [ha'])) fun bs cs hs => ?_
    exact K.pure (.cons hbc hs)

/-- What one program makes of its value at the end. -/
theorem finish [LawfulMonad n] {δ : Type} {R : β → γ → Prop} {S : δ → γ → Prop} {x : m β} {y : n γ}
    {f : β → δ} (h : K.rel R x y) (hf : ∀ a b, R a b → S (f a) b) :
    K.rel S (do return f (← x)) y := by
  rw [← bind_pure y]
  exact K.bind h fun a b hab => K.pure (hf a b hab)

end Correspondence

namespace PathRelation

variable (P : PathRelation)

theorem absorb_all {path : IdSet} {as bs : List Compiled} (h : List.Forall₂ (P.rel path) as bs) :
    ∀ {a b : Compiled}, P.rel path a b →
      P.rel path (as.foldl Compiled.absorb a) (bs.foldl Compiled.absorb b) := by
  induction h with
  | nil => exact id
  | cons hab _ ih => exact fun h => ih (P.absorb h hab)

theorem queries {path : IdSet} {as bs : List Compiled} (h : List.Forall₂ (P.rel path) as bs) :
    as.filterMap Compiled.query = bs.filterMap Compiled.query := by
  induction h with
  | nil => rfl
  | cons hab _ ih => rw [List.filterMap_cons, List.filterMap_cons, P.query hab, ih]

end PathRelation

/-- Of the ids that were looked at none is cut iff none is on the path. -/
theorem Compiled.cut_look_isEmpty {path : IdSet} {ids : List CategoryId} :
    (Compiled.look path ids).cut.isEmpty = true ↔ ∀ id ∈ ids, id ∉ path := by
  simp [IdSet.isEmpty_iff, Compiled.look]

namespace Compiler

/-- The categories that `c` is resolved through, while the ids of `path` are being compiled: its
    virtual root, if no id of the root's path is among them, and its active virtual descendants
    that are not among them. -/
inductive Refers (catalog : Catalog) (store : StoreId) (c : Category) (path : IdSet) :
    Category → Prop where
  | root (r : Category) (hc : c.isActive = true ∧ c.isVirtual = true)
    (hr : Fresh.root? catalog store c = some r) (hpath : ∀ id ∈ r.path, id ∉ path) :
    Refers catalog store c path r
  | child (d : Category) (hd : d ∈ catalog.contributors store c) (hv : d.isVirtual = true)
    (id : CategoryId) (hid : d.id = some id) (hpath : id ∉ path) : Refers catalog store c path d

/-- The path on which the categories that `c` refers to are resolved. -/
def innerPath (c : Category) (path : IdSet) : IdSet :=
  match c.id with
  | none => path
  | some id => path.insert id

/-- Whether a category is not on the path. -/
def Opens (c : Category) (path : IdSet) : Prop := ∀ id, c.id = some id → id ∉ path

section
variable {m n : Type → Type} [Monad m] [Monad n] [MonadExceptOf Failure m]
  [MonadExceptOf Failure n] (K : Correspondence m n) (P : PathRelation)

/-- Two compilers correspond on what may be needed to compile `c`, where `path` holds its id. -/
structure Corresponds (s : Compiler m) (t : Compiler n) (c : Category) (path : IdSet) : Prop where
  settings : s.settings = t.settings
  catalog : s.catalog = t.catalog
  translator : s.translator = t.translator
  ctx : s.ctx = t.ctx
  root : K.rel (fun a b => a = b ∧ b = Fresh.root? s.catalog s.ctx.store c) (s.root c) (t.root c)
  resolve : ∀ d, Refers s.catalog s.ctx.store c path d →
    K.rel (P.rel path) (s.resolve d path) (t.resolve d path)
  report : ∀ e, K.rel (fun _ _ => True) (s.report e) (t.report e)

variable {K P} {s : Compiler m} {t : Compiler n} {c : Category} {path : IdSet}

theorem rel_rootQuery (h : Corresponds K P s t c path)
    (hc : c.isActive = true ∧ c.isVirtual = true) :
    K.rel (P.rel path) (s.rootQuery c path) (t.rootQuery c path) := by
  refine K.bind h.root fun a b hab => ?_
  obtain ⟨rfl, hb⟩ := hab
  match a with
  | none => exact K.pure P.unrestricted
  | some r =>
    simp only
    split
    · rename_i hcut
      have hr : Refers s.catalog s.ctx.store c path r :=
        .root r hc hb.symm (Compiled.cut_look_isEmpty.1 hcut)
      refine K.bind (h.resolve r hr) fun x y hxy => ?_
      exact K.pure (P.absorb hxy (P.look r.path))
    · exact K.bind (h.report _) fun _ _ _ => K.pure (P.look r.path)

theorem rel_virtualQuery (h : Corresponds K P s t c path)
    (hc : c.isActive = true ∧ c.isVirtual = true) :
    K.rel (P.rel path) (s.virtualQuery c path) (t.virtualQuery c path) := by
  unfold virtualQuery
  rw [h.translator, h.ctx]
  refine K.bind (K.ofExcept (R := Eq) (fun _ => rfl) _) fun own own' ho => ?_
  subst ho
  refine K.bind (rel_rootQuery h hc) fun x y hxy => ?_
  rw [P.query hxy]
  exact K.pure (P.withQuery _ hxy)

theorem rel_staticQuery (h : Corresponds K P s t c path) (id : CategoryId) :
    K.rel (P.rel path) (s.staticQuery c id) (t.staticQuery c id) := by
  unfold staticQuery membership
  rw [h.translator, h.ctx, h.settings]
  refine K.bind (K.ofExcept (R := Eq) (fun _ => rfl) _) fun f f' hf => ?_
  subst hf
  exact K.pure (P.withQuery _ P.unrestricted)

theorem rel_baseQuery (h : Corresponds K P s t c path) :
    K.rel (P.rel path) (s.baseQuery c path) (t.baseQuery c path) := by
  unfold baseQuery
  split
  · exact K.pure P.unrestricted
  · rename_i ha
    split
    · rename_i hv
      exact rel_virtualQuery h ⟨by simpa using ha, hv⟩
    · split
      · exact rel_staticQuery h _
      · exact K.pure P.unrestricted

theorem rel_foldChildren [LawfulMonad m] [LawfulMonad n] (h : Corresponds K P s t c path)
    (base : Fragment) :
    K.rel (P.rel path) (s.foldChildren c base path) (t.foldChildren c base path) := by
  unfold foldChildren staticAdditions membership
  simp only [← h.translator, ← h.ctx, ← h.settings, ← h.catalog]
  refine K.bind (K.mapM fun d hd => h.resolve d ?_) fun as bs hs => ?_
  · obtain ⟨hd, hv⟩ := List.mem_filter.1 hd
    obtain ⟨hd, ho⟩ := List.mem_filter.1 hd
    obtain ⟨id, hid, hp⟩ := (Option.any_eq_true _ _).1 ho
    exact .child d hd hv id hid (by simpa using hp)
  · refine K.bind (K.ofExcept (R := Eq) (fun _ => rfl) _) fun x y hxy => ?_
    subst hxy
    rw [P.queries hs]
    exact K.pure (P.withQuery _ (P.absorb_all hs (P.look _)))

theorem rel_compileOpen [LawfulMonad m] [LawfulMonad n] (h : Corresponds K P s t c path) :
    K.rel (P.rel path) (s.compileOpen c path) (t.compileOpen c path) := by
  unfold compileOpen
  rw [h.settings, h.ctx]
  split
  · exact K.pure (P.withQuery _ P.unrestricted)
  · refine K.bind (rel_baseQuery h) fun a b hab => ?_
    have hend : ∀ x y, P.rel path x y →
        K.rel (P.rel path) (do s.report .built; return x) (do t.report .built; return y) :=
      fun x y hxy => K.bind (h.report _) fun _ _ _ => K.pure hxy
    rw [P.query hab]
    cases b.query with
    | none => exact K.bind (K.pure hab) hend
    | some f =>
      refine K.bind (rel_foldChildren h f) fun x y hxy => ?_
      exact K.bind (K.pure (P.absorb hxy hab)) hend

/-- **Compilers that correspond on what a category refers to compile it in corresponding ways.** -/
theorem rel_compile [LawfulMonad m] [LawfulMonad n]
    (h : Opens c path → Corresponds K P s t c (innerPath c path))
    (hreport : ∀ e, K.rel (fun _ _ => True) (s.report e) (t.report e)) :
    K.rel (P.rel path) (s.compile c path) (t.compile c path) := by
  unfold Opens innerPath at h
  unfold compile
  cases hid : c.id with
  | none =>
    simp only [hid] at h ⊢
    exact rel_compileOpen (h (by simp))
  | some id =>
    simp only [hid, Option.some.injEq, forall_eq'] at h ⊢
    split
    · exact K.bind (hreport _) fun _ _ _ => K.pure (P.look [id])
    · rename_i hp
      refine K.bind (rel_compileOpen (h hp)) fun x y hxy => ?_
      exact K.pure (P.absorb (P.shrink hxy) (P.look [id]))

end

end Compiler

end Merchandising
