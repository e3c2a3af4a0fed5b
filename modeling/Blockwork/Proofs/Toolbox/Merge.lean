import Mathlib.Data.List.Induction
import Mathlib.Data.List.Nodup
import Blockwork.Library

/-!
# Listing blocks in a toolbox

Registering a plan lists its block in each category the plan names (`BlockPlan.defineToolboxEntry`,
through `Toolbox.addBlock`): names are taken once each, in order of first occurrence, and each is
looked up among the top-level categories, the block joining the first category of that name or a
new category added at the end and coloured from the name.

When the top-level category names are pairwise distinct, one call does exactly what
`Toolbox.merged` writes out: every category named by the plan gets the block appended once, every
other entry stays as it is and where it is, and the names that were missing come after the old
entries as new categories holding the block, in order of first occurrence
(`addBlock_eq_merged`). The names then stay distinct (`categoryNames_merged_nodup`), so this holds
for every call of every run of registrations (`toolbox_registration_merges`).

The lookup finds the first category of a name, the spec touches every category of it; the two
agree because no other category has that name (`go_eq_map`). A name the call creates is not
looked up again by the same call, since each name comes once.
-/

namespace Blockwork

namespace ToolboxItem

/-- The name of an entry that is a category. -/
def categoryName? : ToolboxItem → Option String
  | .category n _ _ => some n
  | _ => none

/-- An entry with a block appended when it is a category of one of the names. -/
def withEntry (entry : BlockState) (names : List String) : ToolboxItem → ToolboxItem
  | .category n c items =>
    if n ∈ names then .category n c (items ++ [.block entry]) else .category n c items
  | i => i

/-- The new category a missing name gets: coloured from its name, holding the block. -/
def newCategory (entry : BlockState) (name : String) : ToolboxItem :=
  .category name (some (Colour.ofName name)) [.block entry]

@[simp] theorem categoryName?_withEntry (entry : BlockState) (names : List String)
    (i : ToolboxItem) : (i.withEntry entry names).categoryName? = i.categoryName? := by
  cases i with
  | category n c items => by_cases h : n ∈ names <;> simp [withEntry, categoryName?, h]
  | separator => rfl
  | block s => rfl

@[simp] theorem categoryName?_newCategory (entry : BlockState) (name : String) :
    (newCategory entry name).categoryName? = some name := rfl

/-- Only membership in the names decides what happens to an entry. -/
theorem withEntry_congr (entry : BlockState) {names names' : List String}
    (h : ∀ n, n ∈ names ↔ n ∈ names') : withEntry entry names = withEntry entry names' := by
  funext i
  cases i with
  | category n c items => simp [withEntry, h n]
  | separator => rfl
  | block s => rfl

/-- An entry that is no category of the names is left as it is. -/
theorem withEntry_of_not_mem (entry : BlockState) {names : List String} {i : ToolboxItem}
    (h : ∀ n ∈ names, i.categoryName? ≠ some n) : i.withEntry entry names = i := by
  cases i with
  | category m c items =>
    have hm : m ∉ names := fun hm => h m hm rfl
    simp [withEntry, hm]
  | separator => rfl
  | block s => rfl

/-- Appending for one name and then for others is appending for all of them at once. -/
theorem withEntry_withEntry (entry : BlockState) {n : String} {names : List String}
    (hn : n ∉ names) (i : ToolboxItem) :
    (i.withEntry entry [n]).withEntry entry names = i.withEntry entry (n :: names) := by
  cases i with
  | category m c items =>
    by_cases hm : m = n
    · subst hm
      simp [withEntry, hn]
    · by_cases hm' : m ∈ names <;> simp [withEntry, hm, hm']
  | separator => rfl
  | block s => rfl

/-- A name that is no category of an entry does not change what happens to it. -/
theorem withEntry_cons_of_ne (entry : BlockState) {n : String} {names : List String}
    {i : ToolboxItem} (h : i.categoryName? ≠ some n) :
    i.withEntry entry (n :: names) = i.withEntry entry names := by
  cases i with
  | category m c items =>
    have hm : m ≠ n := fun hm => h (by rw [hm]; rfl)
    simp [withEntry, hm]
  | separator => rfl
  | block s => rfl

theorem isCategory_eq_true_iff {name : String} {i : ToolboxItem} :
    i.isCategory name = true ↔ i.categoryName? = some name := by
  cases i with
  | category m c items => simp [isCategory, categoryName?]
  | separator => simp [isCategory, categoryName?]
  | block s => simp [isCategory, categoryName?]

end ToolboxItem

open ToolboxItem

/-- The names of the top-level categories of a list of entries, in order. -/
def categoryNamesOf (items : List ToolboxItem) : List String :=
  items.filterMap categoryName?

@[simp] theorem categoryNamesOf_nil : categoryNamesOf [] = [] := rfl

@[simp] theorem categoryNamesOf_append (l l' : List ToolboxItem) :
    categoryNamesOf (l ++ l') = categoryNamesOf l ++ categoryNamesOf l' :=
  List.filterMap_append

@[simp] theorem categoryNamesOf_map_withEntry (entry : BlockState) (names : List String)
    (l : List ToolboxItem) :
    categoryNamesOf (l.map (withEntry entry names)) = categoryNamesOf l := by
  simp [categoryNamesOf, List.filterMap_map]

@[simp] theorem categoryNamesOf_map_newCategory (entry : BlockState) (names : List String) :
    categoryNamesOf (names.map (newCategory entry)) = names := by
  simp [categoryNamesOf, List.filterMap_map, Function.comp_def]

theorem mem_categoryNamesOf {n : String} {l : List ToolboxItem} :
    n ∈ categoryNamesOf l ↔ ∃ i ∈ l, i.categoryName? = some n := by
  simp [categoryNamesOf, List.mem_filterMap]

/-- Entries none of whose categories is named by the names are left as they are. -/
theorem map_withEntry_of_disjoint (entry : BlockState) {names : List String}
    {l : List ToolboxItem} (h : ∀ n ∈ names, n ∉ categoryNamesOf l) :
    l.map (withEntry entry names) = l := by
  rw [List.map_congr_left (g := id), List.map_id]
  intro i hi
  exact withEntry_of_not_mem entry fun n hn hin => h n hn (mem_categoryNamesOf.mpr ⟨i, hi, hin⟩)

namespace Toolbox

/-- The names of the top-level categories, in order. -/
def categoryNames (t : Toolbox) : List String := categoryNamesOf t.contents

/-- What listing a block in categories gives on a toolbox whose category names are distinct:
each category named in `names` gets the block appended once, every other entry stays as it is
and where it is, and each name with no category yet, taken once in order of first occurrence,
gets a new category at the end, coloured from its name and holding the block. -/
def merged (t : Toolbox) (entry : BlockState) (names : List String) : Toolbox :=
  { t with contents := t.contents.map (withEntry entry names) ++
      (names.eraseDups.filter (· ∉ t.categoryNames)).map (newCategory entry) }

/-! ### One name -/

/-- The lookup appends the block to the first category of the name; on entries whose category
names are distinct, that is appending it to every category of the name. -/
theorem go_eq_map (entry : BlockState) (name : String) {l : List ToolboxItem}
    (hl : (categoryNamesOf l).Nodup) :
    addToCategory.go entry name l = l.map (withEntry entry [name]) := by
  induction l with
  | nil => rfl
  | cons i is ih =>
    cases i with
    | category m c items =>
      simp only [categoryNamesOf, List.filterMap_cons, categoryName?, List.nodup_cons] at hl
      by_cases hm : m = name
      · subst hm
        -- no later category has the name, so the rest is left as it is
        have hrest : is.map (withEntry entry [m]) = is :=
          map_withEntry_of_disjoint entry (by simpa [categoryNamesOf] using hl.1)
        simp [addToCategory.go, withEntry, hrest]
      · simp [addToCategory.go, withEntry, hm, ih hl.2]
    | separator => simpa [addToCategory.go, withEntry] using ih hl
    | block s => simpa [addToCategory.go, withEntry] using ih hl

theorem any_isCategory_iff {name : String} {l : List ToolboxItem} :
    l.any (·.isCategory name) = true ↔ name ∈ categoryNamesOf l := by
  simp [mem_categoryNamesOf, isCategory_eq_true_iff]

/-- A category that exists gets the block appended. -/
theorem addToCategory_of_mem {t : Toolbox} (entry : BlockState) {name : String}
    (hname : name ∈ t.categoryNames) (ht : t.categoryNames.Nodup) :
    t.addToCategory entry name =
      { t with contents := t.contents.map (withEntry entry [name]) } := by
  rw [addToCategory, if_pos (any_isCategory_iff.mpr hname), go_eq_map entry name ht]

/-- A missing category is added at the end, holding the block. -/
theorem addToCategory_of_not_mem {t : Toolbox} (entry : BlockState) {name : String}
    (hname : name ∉ t.categoryNames) :
    t.addToCategory entry name = { t with contents := t.contents ++ [newCategory entry name] } := by
  rw [addToCategory, if_neg (mt any_isCategory_iff.mp hname)]
  rfl

/-! ### Distinct names -/

/-- Adding the names one by one, each once, appends the block to the categories that exist and
adds the others at the end in order. -/
theorem foldl_addToCategory (entry : BlockState) {names : List String} (hnames : names.Nodup)
    {t : Toolbox} (ht : t.categoryNames.Nodup) :
    names.foldl (fun t n => t.addToCategory entry n) t =
      { t with contents := t.contents.map (withEntry entry names) ++
          (names.filter (· ∉ t.categoryNames)).map (newCategory entry) } := by
  induction names generalizing t with
  | nil =>
    rw [List.foldl_nil, List.filter_nil, List.map_nil, List.append_nil,
      map_withEntry_of_disjoint entry (by simp)]
  | cons n ns ih =>
    rw [List.nodup_cons] at hnames
    obtain ⟨hn, hns⟩ := hnames
    rw [List.foldl_cons]
    by_cases hmem : n ∈ t.categoryNames
    · -- the category exists: the names stay as they are
      have hnames : ({ t with contents := t.contents.map (withEntry entry [n]) } :
          Toolbox).categoryNames = t.categoryNames := categoryNamesOf_map_withEntry _ _ _
      rw [addToCategory_of_mem entry hmem ht, ih hns (hnames ▸ ht), hnames,
        List.filter_cons_of_neg (by simpa using hmem)]
      simp only [List.map_map, Function.comp_def, withEntry_withEntry entry hn]
    · -- the category is new: it comes last, and no later name is its name
      have hnames : ({ t with contents := t.contents ++ [newCategory entry n] } :
          Toolbox).categoryNames = t.categoryNames ++ [n] := by
        simp only [categoryNames, categoryNamesOf_append]
        rfl
      have ht' : (t.categoryNames ++ [n]).Nodup := List.concat_eq_append ▸ ht.concat hmem
      rw [addToCategory_of_not_mem entry hmem, ih hns (hnames ▸ ht'), hnames,
        List.filter_cons_of_pos (by simpa using hmem)]
      have hold : t.contents.map (withEntry entry ns) =
          t.contents.map (withEntry entry (n :: ns)) := by
        refine List.map_congr_left fun i hi => (withEntry_cons_of_ne entry fun h => hmem ?_).symm
        exact mem_categoryNamesOf.mpr ⟨i, hi, h⟩
      have hlast : (newCategory entry n).withEntry entry ns = newCategory entry n :=
        withEntry_of_not_mem entry fun m hm h => hn (by simp at h; exact h ▸ hm)
      have hrest :
          ns.filter (· ∉ t.categoryNames ++ [n]) = ns.filter (· ∉ t.categoryNames) := by
        refine List.filter_congr fun m hm => ?_
        have hmn : m ≠ n := fun h => hn (h ▸ hm)
        simp [hmn]
      rw [hrest, List.map_append, hold, List.map_singleton, hlast, List.map_cons,
        List.append_assoc, List.singleton_append]

/-! ### Names taken once each -/

theorem uniqueNames_append_singleton (names : List String) (n : String) :
    uniqueNames (names ++ [n]) =
      if n ∈ uniqueNames names then uniqueNames names else uniqueNames names ++ [n] := by
  simp [uniqueNames, List.foldl_append]

/-- The names are taken in order of first occurrence, as `List.eraseDups` takes them. -/
theorem uniqueNames_eq_eraseDups (names : List String) : uniqueNames names = names.eraseDups := by
  induction names using List.reverseRecOn with
  | nil => rfl
  | append_singleton ns n ih =>
    rw [uniqueNames_append_singleton, List.eraseDups_append, ih]
    by_cases h : n ∈ ns
    · simp [List.mem_eraseDups, h, List.cons_removeAll]
    · simp [List.mem_eraseDups, h, List.cons_removeAll, List.eraseDups_cons]

theorem nodup_uniqueNames (names : List String) : (uniqueNames names).Nodup := by
  induction names using List.reverseRecOn with
  | nil => exact List.nodup_nil
  | append_singleton ns n ih =>
    rw [uniqueNames_append_singleton]
    split_ifs with h
    · exact ih
    · exact List.concat_eq_append ▸ ih.concat h

theorem mem_uniqueNames {n : String} {names : List String} :
    n ∈ uniqueNames names ↔ n ∈ names := by
  rw [uniqueNames_eq_eraseDups, List.mem_eraseDups]

/-! ### One call -/

/-- **One call merges.** On a toolbox whose category names are distinct, listing a block in
categories does what `merged` writes out. -/
theorem addBlock_eq_merged {t : Toolbox} (ht : t.categoryNames.Nodup) (entry : BlockState)
    (names : List String) : t.addBlock entry names = t.merged entry names := by
  rw [addBlock, foldl_addToCategory entry (nodup_uniqueNames names) ht, merged,
    withEntry_congr entry fun n => mem_uniqueNames, uniqueNames_eq_eraseDups]

/-- The names after a call: the old ones, then the missing ones in order of first occurrence. -/
theorem categoryNames_merged (t : Toolbox) (entry : BlockState) (names : List String) :
    (t.merged entry names).categoryNames =
      t.categoryNames ++ names.eraseDups.filter (· ∉ t.categoryNames) := by
  simp [merged, categoryNames]

/-- A call keeps the category names distinct. -/
theorem categoryNames_merged_nodup {t : Toolbox} (ht : t.categoryNames.Nodup)
    (entry : BlockState) (names : List String) : (t.merged entry names).categoryNames.Nodup := by
  rw [categoryNames_merged]
  have hnew : (names.eraseDups.filter (· ∉ t.categoryNames)).Nodup :=
    (uniqueNames_eq_eraseDups names ▸ nodup_uniqueNames names).filter _
  refine ht.append hnew fun a ha hb => ?_
  -- a created name was missing before
  have hmissing := (List.mem_filter.mp hb).2
  simp [ha] at hmissing

end Toolbox

/-- **Registering plans merges their entries into the toolbox.** Starting from a toolbox whose
top-level category names are pairwise distinct, after any run of registrations the names are
still distinct, and the next plan's entry is merged in as `Toolbox.merged` writes out: appended
once to the category of each name the plan lists, missing categories created at the end in
order of first occurrence and coloured from their names, every other entry unchanged in its
place. -/
theorem toolbox_registration_merges (t : Toolbox) (ht : t.categoryNames.Nodup)
    (plans : List BlockPlan) :
    let s := plans.foldl (fun t p => p.defineToolboxEntry t) t
    s.categoryNames.Nodup ∧
      ∀ p : BlockPlan, p.defineToolboxEntry s = s.merged p.entryState p.categories := by
  -- the run keeps the names distinct, one merge at a time
  have hrun : ∀ (plans : List BlockPlan) (t : Toolbox), t.categoryNames.Nodup →
      (plans.foldl (fun t p => p.defineToolboxEntry t) t).categoryNames.Nodup := by
    intro plans
    induction plans with
    | nil => exact fun _ ht => ht
    | cons p ps ih =>
      intro t ht
      rw [List.foldl_cons, BlockPlan.defineToolboxEntry, Toolbox.addBlock_eq_merged ht]
      exact ih _ (Toolbox.categoryNames_merged_nodup ht _ _)
  have hs := hrun plans t ht
  exact ⟨hs, fun p => Toolbox.addBlock_eq_merged hs p.entryState p.categories⟩

/-- Two plans registered into a toolbox that already has a `Math` category, a separator and a
`Text` category, the first plan naming `Text` twice. -/
theorem registration_into_base_merges :
    let base : Toolbox :=
      { contents := [.category "Math" (some "#123456") [], .separator, .category "Text" none []] }
    let plans : List BlockPlan :=
      [⟨"text", .value, .horizontal, ["Text", "Strings", "Text"], "", "",
          .leaf ⟨"text", [], [], none, none⟩ "", []⟩,
        ⟨"number", .value, .horizontal, ["Math", "Numbers"], "", "",
          .leaf ⟨"number", [], [], none, none⟩ "", []⟩]
    base.categoryNames.Nodup ∧
      let s := plans.foldl (fun t p => p.defineToolboxEntry t) base
      s.categoryNames.Nodup ∧
        ∀ p : BlockPlan, p.defineToolboxEntry s = s.merged p.entryState p.categories :=
  ⟨by decide, toolbox_registration_merges _ (by decide) _⟩

end Blockwork
