import Mathlib

/-!
# Pagination by key

A client reads a table page by page, the latest rows first, and asks for the
next page with the key of the last row it has seen: the rows strictly before it.
Between two pages the table may have grown. Nothing is read twice
(`PageWalk.subperm`) and what is read comes in order (`PageWalk.sorted`); a row
that was there from the start is passed over only where its key is the key of
the last row of some page, so that it stood on both sides of a cut
(`PageWalk.complete`).

Rows of one key come in any order, a different one for each page. So a page is not a
function of the rows: `IsPage` says of a list that it could be one, by three things that an
`ORDER BY` with a `LIMIT` promises. It is sorted, it is full or all there is, and
nothing of the rest is later than anything on it. `PageWalk` puts pages in a row, each of the
rows at its own moment, and all three results are inductions over it.

Nothing is read twice although rows may be alike: the statement compares how often a
row is read with how often it is there.
-/

namespace CohortSwitch

open scoped List

variable {α κ : Type} [LinearOrder κ] {key : α → κ} {limit : ℕ} {before : Option κ}

/-- The rows before a key, where one is given. -/
def rowsBefore (key : α → κ) (before : Option κ) (rows : List α) : List α :=
  rows.filter (fun row => before.all (fun k => key row < k))

/-- **A page**: the latest rows, and no more than `limit`. -/
def IsPage (key : α → κ) (limit : ℕ) (rows page : List α) : Prop :=
  ∃ sorted : List α, sorted.Perm rows ∧ sorted.Pairwise (fun a b => key b ≤ key a)
    ∧ page = sorted.take limit

/-- **Page after page**, each of the rows of its moment before the last row of the page
before it, down to a page that is not full. -/
inductive PageWalk (key : α → κ) (limit : ℕ) : Option κ → List (List α) → List (List α) → Prop
  | last {before : Option κ} {rows page : List α}
    (page_of : IsPage key limit (rowsBefore key before rows) page) (short : page.length < limit) :
    PageWalk key limit before [rows] [page]
  | next {before : Option κ} {rows page : List α} {row : α} {later pages : List (List α)}
    (page_of : IsPage key limit (rowsBefore key before rows) page)
    (lastRow : page.getLast? = some row) (walk : PageWalk key limit (some (key row)) later pages) :
    PageWalk key limit before (rows :: later) (page :: pages)

/-- The keys at which a walk was cut: those of the last rows of the pages but the last. -/
def cuts (key : α → κ) (pages : List (List α)) : List κ :=
  pages.dropLast.filterMap (fun page => page.getLast?.map key)

/-! ## One page -/

/-- A page is some of the rows. -/
theorem IsPage.subperm {rows page : List α} (h : IsPage key limit rows page) : page <+~ rows := by
  obtain ⟨sorted, hperm, -, rfl⟩ := h
  exact (List.take_sublist limit sorted).subperm.trans hperm.subperm

/-- It is sorted. -/
theorem IsPage.pairwise {rows page : List α} (h : IsPage key limit rows page) :
    page.Pairwise (fun a b => key b ≤ key a) := by
  obtain ⟨sorted, -, hsorted, rfl⟩ := h
  exact hsorted.sublist (List.take_sublist limit sorted)

/-- A page that is not full has all the rows. -/
theorem IsPage.perm {rows page : List α} (h : IsPage key limit rows page)
    (hshort : page.length < limit) : page.Perm rows := by
  obtain ⟨sorted, hperm, -, rfl⟩ := h
  rw [List.length_take] at hshort
  rwa [List.take_of_length_le (by omega)]

/-- The last row of a page comes last. -/
theorem IsPage.le_of_mem {rows page : List α} {row last : α} (h : IsPage key limit rows page)
    (hlast : page.getLast? = some last) (hrow : row ∈ page) : key last ≤ key row := by
  obtain ⟨init, rfl⟩ := List.getLast?_eq_some_iff.mp hlast
  have hpairs := (List.pairwise_append.mp h.pairwise).2.2
  rcases List.mem_append.mp hrow with hinit | hself
  · exact hpairs row hinit last List.mem_cons_self
  · rw [List.mem_singleton.mp hself]

/-- **The rows after the last one of a page are on the page.** -/
theorem IsPage.filter_subperm {rows page : List α} {last : α} (h : IsPage key limit rows page)
    (hlast : page.getLast? = some last) :
    rows.filter (fun row => key last < key row) <+~ page := by
  obtain ⟨sorted, hperm, hsorted, rfl⟩ := h
  have hmem : last ∈ sorted.take limit := List.mem_of_getLast? hlast
  rw [← List.take_append_drop limit sorted] at hperm hsorted
  -- beyond the page no key is later than the last of the page
  have hbeyond : (sorted.drop limit).filter (fun row => key last < key row) = [] := by
    refine List.filter_eq_nil_iff.mpr (fun row hrow => ?_)
    have hle := (List.pairwise_append.mp hsorted).2.2 last hmem row hrow
    simpa using hle
  have hfilter := (hperm.filter (fun row => key last < key row)).symm
  rw [List.filter_append, hbeyond, List.append_nil] at hfilter
  exact hfilter.subperm.trans List.filter_sublist.subperm

/-! ## Page after page -/

/-- A row before a key. -/
theorem mem_rowsBefore {rows : List α} {row : α} :
    row ∈ rowsBefore key before rows ↔ row ∈ rows ∧ ∀ k ∈ before, key row < k := by
  unfold rowsBefore
  rw [List.mem_filter]
  cases before with
  | none => simp
  | some k => simp

/-- There is a first page. -/
theorem PageWalk.ne_nil {states pages : List (List α)}
    (h : PageWalk key limit before states pages) :
    pages ≠ [] := by
  cases h with
  | last page_of short => exact List.cons_ne_nil _ _
  | next page_of lastRow walk => exact List.cons_ne_nil _ _

/-- Two parts of a list, told apart by a test, make no more than the list. -/
theorem subperm_of_filter {xs ys rows : List α} (p : α → Bool)
    (hxs : xs <+~ rows.filter (fun row => !p row)) (hys : ys <+~ rows.filter p) :
    xs ++ ys <+~ rows := by
  have hparts := hys.append hxs
  have hwhole : rows.filter p ++ rows.filter (fun row => !p row) <+~ rows :=
    (List.filter_append_perm p rows).subperm
  exact List.perm_append_comm.subperm.trans (hparts.trans hwhole)

/-- **A walk reads nothing twice**, and nothing that is not there in the end. -/
theorem PageWalk.subperm {states pages : List (List α)} {final : List α}
    (h : PageWalk key limit before states pages) (hfinal : ∀ rows ∈ states, rows <+~ final) :
    pages.flatten <+~ rowsBefore key before final := by
  induction h with
  | @last before rows page page_of short =>
    rw [List.flatten_cons, List.flatten_nil, List.append_nil]
    exact page_of.subperm.trans ((hfinal rows List.mem_cons_self).filter _)
  | @next before rows page row later pages page_of lastRow walk ih =>
    have hrow := mem_rowsBefore.mp (page_of.subperm.subset (List.mem_of_getLast? lastRow))
    have hpages := ih (fun rows hrows => hfinal rows (List.mem_cons_of_mem _ hrows))
    have hpage : page <+~ rowsBefore key before final :=
      page_of.subperm.trans ((hfinal rows List.mem_cons_self).filter _)
    rw [List.flatten_cons]
    refine subperm_of_filter (fun other => key other < key row) ?_ ?_
    · have hall : page.filter (fun other => !decide (key other < key row)) = page := by
        refine List.filter_eq_self.mpr (fun other hother => ?_)
        simpa using page_of.le_of_mem lastRow hother
      rw [← hall]
      exact hpage.filter _
    · refine hpages.trans (List.Sublist.subperm ?_)
      unfold rowsBefore
      rw [List.filter_filter]
      refine List.monotone_filter_right final (fun other hother => ?_)
      have hlt : key other < key row := by simpa using hother
      cases before with
      | none => simpa using hlt
      | some k => simpa using ⟨hlt, hlt.trans (hrow.2 k rfl)⟩

/-- **A walk reads the latest rows first.** -/
theorem PageWalk.sorted {states pages : List (List α)}
    (h : PageWalk key limit before states pages) :
    pages.flatten.Pairwise (fun a b => key b ≤ key a)
      ∧ ∀ row ∈ pages.flatten, ∀ k ∈ before, key row < k := by
  induction h with
  | @last before rows page page_of short =>
    rw [List.flatten_cons, List.flatten_nil, List.append_nil]
    exact ⟨page_of.pairwise, fun row hrow => (mem_rowsBefore.mp (page_of.subperm.subset hrow)).2⟩
  | @next before rows page row later pages page_of lastRow walk ih =>
    obtain ⟨hsorted, hbefore⟩ := ih
    have hpage : ∀ other ∈ page, ∀ k ∈ before, key other < k := fun other hother =>
      (mem_rowsBefore.mp (page_of.subperm.subset hother)).2
    have hlater : ∀ other ∈ pages.flatten, key other < key row := fun other hother =>
      hbefore other hother _ rfl
    rw [List.flatten_cons]
    refine ⟨List.pairwise_append.mpr ⟨page_of.pairwise, hsorted, fun a ha b hb => ?_⟩, ?_⟩
    · exact (hlater b hb).le.trans (page_of.le_of_mem lastRow ha)
    · refine List.forall_mem_append.mpr ⟨hpage, fun other hother k hk => ?_⟩
      exact (hlater other hother).trans (hpage row (List.mem_of_getLast? lastRow) k hk)

/-- **A walk passes over nothing but at a cut**: what was there at each of its pages is
read, where its key is not the key of the last row of a page. -/
theorem PageWalk.complete {states pages : List (List α)} {first : List α}
    (h : PageWalk key limit before states pages) (hfirst : ∀ rows ∈ states, first <+~ rows) :
    (rowsBefore key before first).filter (fun row => key row ∉ cuts key pages)
      <+~ pages.flatten := by
  induction h with
  | @last before rows page page_of short =>
    rw [List.flatten_cons, List.flatten_nil, List.append_nil]
    refine List.filter_sublist.subperm.trans ?_
    exact ((hfirst rows List.mem_cons_self).filter _).trans (page_of.perm short).symm.subperm
  | @next before rows page row later pages page_of lastRow walk ih =>
    have hpages := ih (fun rows hrows => hfirst rows (List.mem_cons_of_mem _ hrows))
    have hcuts : cuts key (page :: pages) = key row :: cuts key pages := by
      unfold cuts
      rw [List.dropLast_cons_of_ne_nil walk.ne_nil, List.filterMap_cons_some (b := key row)]
      rw [lastRow]
      rfl
    rw [List.flatten_cons, hcuts]
    generalize hseen : (rowsBefore key before first).filter
      (fun other => key other ∉ key row :: cuts key pages) = seen
    -- what comes after the cut is on this page, what comes before it on a later one
    have hafter : seen.filter (fun other => !decide (key other < key row)) <+~ page := by
      refine List.Subperm.trans ?_ (page_of.filter_subperm lastRow)
      refine List.Subperm.trans (List.Sublist.subperm ?_)
        (((hfirst rows List.mem_cons_self).filter _).filter _)
      rw [← hseen, List.filter_filter]
      refine List.monotone_filter_right _ (fun other hother => ?_)
      have hkey : key row ≤ key other ∧ ¬ key other = key row := by
        have hkey := hother
        simp only [List.mem_cons, not_or, Bool.and_eq_true, Bool.not_eq_true',
          decide_eq_false_iff_not, not_lt, decide_eq_true_eq] at hkey
        exact ⟨hkey.1, hkey.2.1⟩
      exact decide_eq_true (lt_of_le_of_ne hkey.1 (Ne.symm hkey.2))
    have hbefore : seen.filter (fun other => key other < key row) <+~ pages.flatten := by
      refine List.Subperm.trans (List.Sublist.subperm ?_) hpages
      rw [← hseen]
      unfold rowsBefore
      rw [List.filter_filter, List.filter_filter, List.filter_filter]
      refine List.monotone_filter_right _ (fun other hother => ?_)
      simp only [List.mem_cons, not_or, Bool.and_eq_true, decide_eq_true_eq] at hother
      obtain ⟨⟨hlt, -, hnot⟩, -⟩ := hother
      simp [hlt, hnot]
    refine List.Subperm.trans ?_ (hafter.append hbefore)
    have hsplit := List.filter_append_perm (fun other => decide (key other < key row)) seen
    exact (hsplit.symm.trans List.perm_append_comm).subperm

end CohortSwitch
