/-
  What workers make of a catalog depends on the categories that it holds only.

  * `Request.work_same`: on two catalogs with the same categories a worker does the same for every
    request, whatever is in its caches;
  * `Catalog.descendants_exact`: descendants are those categories that were saved and are neither
    replaced nor removed, in a strict order; catalogs with the same categories list the same,
    compile the same anew, and the same work is done on them.

  The entries of a catalog may stand in any order.
-/
import Merchandising.Proofs.Catalog.Contents
import Merchandising.Proofs.Resolver.Alike

namespace Merchandising

open Catalog (SameAs)

section
variable {a b : Catalog} (h : SameAs a b) (translator : Translator) (ctx : Context)
include h

/-! ## Workers -/

namespace Worker

theorem virtualRoot_same (store : StoreId) : virtualRoot a store = virtualRoot b store := by
  funext c
  unfold virtualRoot Catalog.root?
  simp only [(h.alikeIn store).load?_eq]

/-- Compilers on the two catalogs are alike if they resolve other categories alike. -/
theorem alike_compiler (settings : Settings) (resolve : Category → IdSet → Work Compiled) :
    (compiler settings a translator ctx resolve).Alike (compiler settings b translator ctx resolve)
    where
  settings := ⟨rfl, rfl, rfl⟩
  catalog := h.alikeIn ctx.store
  translator := rfl
  ctx := rfl
  root := virtualRoot_same h ctx.store
  resolve := rfl
  report := rfl

variable (beyond : Category → IdSet → Work Compiled)

theorem resolveWithin_same (settings : Settings) (n : Nat) :
    resolveWithin settings a translator ctx beyond n =
      resolveWithin settings b translator ctx beyond n := by
  induction n with
  | zero => rfl
  | succ n ih =>
    funext c path
    rw [resolveWithin, resolveWithin, ih, (alike_compiler h translator ctx settings _).compile]

theorem depthFor_same (w : Worker) : w.depthFor a = w.depthFor b := by
  rw [depthFor, depthFor, h.size_eq]

theorem resolveOr_same : resolveOr a translator ctx beyond = resolveOr b translator ctx beyond := by
  funext c path
  unfold resolveOr
  simp only [depthFor_same h, resolveWithin_same h]

theorem buildOr_same : buildOr a translator ctx beyond = buildOr b translator ctx beyond := by
  funext c path
  unfold buildOr
  simp only [depthFor_same h, resolveWithin_same h, (alike_compiler h translator ctx _ _).compile]

theorem queryOr_same : queryOr a translator ctx beyond = queryOr b translator ctx beyond := by
  funext c
  unfold queryOr
  rw [resolveOr_same h]

theorem mergeOr_same : mergeOr a translator ctx beyond = mergeOr b translator ctx beyond := by
  funext cs
  unfold mergeOr
  rw [resolveOr_same h]

end Worker

/-- **The same work is done on catalogs with the same categories.** -/
theorem Request.work_same (r : Request) : r.work a translator = r.work b translator := by
  cases r with
  | query ctx c => simp only [work, Worker.query, Worker.queryOr_same h]
  | resolve ctx c path => simp only [work, Worker.resolve, Worker.resolveOr_same h]
  | build ctx c path => simp only [work, Worker.build, Worker.buildOr_same h]
  | merge ctx cs => simp only [work, Worker.merge, Worker.mergeOr_same h]
  | virtualRoot store c => simp only [work, Worker.virtualRoot_same h]

/-- So is what is compiled without caches. -/
theorem Fresh.compile_same (settings : Settings) :
    compile settings a translator = compile settings b translator := by
  funext ctx
  exact compile_alike ⟨rfl, rfl, rfl⟩ (h.alikeIn ctx.store) translator

end

/-! ## Descendants -/

namespace Catalog

/-- **Descendants depend on what a catalog holds only.**  After any changes, and in whichever order
    the entries stand, the descendants of a category are the categories of the store that were
    saved, are neither replaced nor removed since, and whose paths go on from that of the category.
    Each is listed once, the shorter paths first, and those of one length in the order of their ids.
    Another catalog with the same categories, however it was filled, lists the same descendants;
    every category is compiled to the same with it, and workers do the same for every request. -/
theorem descendants_exact (changes : List Change) (catalog : Catalog)
    (h : catalog.entries.Perm (ofChanges changes).entries) :
    (∀ store e,
      (∀ d, d ∈ catalog.descendants store e ↔
        Held changes d ∧ d.store = store ∧ e.path <+: d.path ∧ e.path ≠ d.path) ∧
      (catalog.descendants store e).Nodup ∧ (catalog.descendants store e).Pairwise Precedes) ∧
    ∀ other : Catalog, (∀ c, c ∈ other.entries ↔ c ∈ catalog.entries) →
      (∀ store e, other.descendants store e = catalog.descendants store e) ∧
      ∀ translator,
        (∀ settings ctx c path, Fresh.compile settings other translator ctx c path =
          Fresh.compile settings catalog translator ctx c path) ∧
        ∀ r : Request, r.work other translator = r.work catalog translator := by
  refine ⟨fun store e => ⟨fun d => ?_, nodup_descendants catalog store e,
    pairwise_descendants catalog store e⟩, fun other hsame => ⟨fun store e => ?_, ?_⟩⟩
  · rw [mem_descendants, h.mem_iff, mem_ofChanges]
  · have halike : AlikeIn store other catalog := SameAs.alikeIn hsame store
    exact halike.descendants_eq e
  · intro translator
    constructor
    · intro settings ctx c path
      rw [Fresh.compile_same hsame]
    · exact Request.work_same hsame translator

/-- Shoes are renamed and hats removed again; another catalog is filled in another order. -/
theorem descendants_exact_shoes :
    let root := Category.top 1 "Root"
    let shoes := root.child 2 "Shoes"
    let sandals := shoes.child 5 "Sandals"
    let boots := root.child 3 "Boots"
    let changes : List Change := [.insert boots, .insert sandals,
      .insert (root.child 2 "Old shoes"), .insert (root.child 4 "Hats"), .insert shoes, .remove 0 4]
    let catalog := ofList [sandals, shoes, boots]
    catalog.entries.Perm (ofChanges changes).entries ∧
      shoes ∈ catalog.descendants 0 root ∧
      (ofChanges changes).descendants 0 root = catalog.descendants 0 root := by
  intro root shoes sandals boots changes catalog
  have hperm : catalog.entries.Perm (ofChanges changes).entries := by
    have hcatalog : catalog.entries = [sandals, shoes] ++ [boots] := rfl
    have hchanges : (ofChanges changes).entries = [boots] ++ [sandals, shoes] := rfl
    rw [hcatalog, hchanges]
    exact List.perm_append_comm
  have hheld : Held changes shoes := by
    refine ⟨⟨rfl, [.remove 0 4], ⟨changes.take 4, rfl⟩, fun x hx => ?_⟩, rfl⟩
    obtain rfl := List.mem_singleton.1 hx
    decide
  obtain ⟨hlisted, hsame⟩ := descendants_exact changes catalog hperm
  refine ⟨hperm, ((hlisted 0 root).1 shoes).2 ⟨hheld, rfl, ?_, ?_⟩, ?_⟩
  · exact ⟨[2], rfl⟩
  · decide
  · exact (hsame (ofChanges changes) fun c => hperm.mem_iff.symm).1 0 root

end Catalog

end Merchandising
