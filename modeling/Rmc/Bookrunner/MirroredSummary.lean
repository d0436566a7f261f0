import Rmc.Bookrunner.Hierarchy

/-!
# Summaries that are mirrored

The directories that are recorded for the links of a summary mirror its lists exactly when the lists
come first, and after them at most one link of its own and then headings. The first part of a title
must be a component, since a dot is not kept for the parts after it and after two dots there is no
last component.
-/

namespace Rmc.Bookrunner

/-! ### The order of a summary -/

/-- The title starts with a component. -/
def FirstPlain (title : List Chunk) : Prop := ∀ c ∈ title.head?, Plain c.str

/-- The block has no link. -/
def Block.Quiet : Block → Prop
  | .heading _ => True
  | .link _ _ => False
  | .list items => items = []

def headingTexts (summary : List Block) : List Chunk :=
  summary.flatMap fun b =>
    match b with
    | .heading text => text
    | _ => []

/-- The parts are merged without a panic. -/
def Readable (cs : List Chunk) : Prop := cs.length ≤ 1 ∨ ∀ c ∈ cs.head?, c.str ≠ ".."

/-- Lists, then at most one link, then headings. -/
def Ordered : List Block → Prop
  | [] => True
  | .list items :: rest => (∀ title ∈ itemsTitles items, FirstPlain title) ∧ Ordered rest
  | .heading [] :: rest => Ordered rest
  | .heading (c :: cs) :: rest =>
    (∀ b ∈ rest, b.Quiet) ∧ Readable (c :: cs ++ headingTexts rest)
  | .link title _ :: rest =>
    FirstPlain title ∧ (∀ b ∈ rest, b.Quiet) ∧ Readable (headingTexts rest)

/-! ### Lists that differ at a place -/

section Clash

variable {α : Type*} {l l' m m' : List α}

def Clash (l l' : List α) : Prop := ∃ (i : ℕ) (a b : α), l[i]? = some a ∧ l'[i]? = some b ∧ a ≠ b

lemma Clash.ne (h : Clash l l') : l ≠ l' := by
  rintro rfl
  obtain ⟨i, a, b, ha, hb, hne⟩ := h
  rw [ha] at hb
  exact hne (Option.some.inj hb)

lemma getElem?_of_prefix {i : ℕ} {a : α} (h : l <+: m) (ha : l[i]? = some a) :
    m[i]? = some a := by
  obtain ⟨rest, rfl⟩ := h
  have hi : i < l.length := (List.getElem?_eq_some_iff.mp ha).1
  rw [List.getElem?_append_left hi, ha]

lemma Clash.mono (h : Clash l l') (hm : l <+: m) (hm' : l' <+: m') : Clash m m' := by
  obtain ⟨i, a, b, ha, hb, hne⟩ := h
  exact ⟨i, a, b, getElem?_of_prefix hm ha, getElem?_of_prefix hm' hb, hne⟩

lemma clash_append_singleton {a b : α} (h : a ≠ b) : Clash (l ++ [a]) (l ++ [b]) :=
  ⟨l.length, a, b, by simp, by simp, h⟩

end Clash

/-! ### The texts of a title -/

/-- The component of a title. -/
abbrev clean (cs : List Chunk) : String := sanitise (titleText cs)

lemma clean_cons (c : Chunk) (cs : List Chunk) : clean (c :: cs) = sanitise c.str ++ clean cs :=
  sanitise_append _ _

lemma clean_append (cs ds : List Chunk) : clean (cs ++ ds) = clean cs ++ clean ds := by
  induction cs with
  | nil =>
    have hnil : clean [] = "" := rfl
    rw [List.nil_append, hnil, String.empty_append]
  | cons c cs ih => rw [List.cons_append, clean_cons, clean_cons, ih, String.append_assoc]

lemma append_ne_right {s : String} (h : Plain s) (t u : String) : s ++ t ++ u ≠ u := by
  intro heq
  have hlength := congrArg (fun x : String => x.toList.length) heq
  simp only [String.toList_append, List.length_append] at hlength
  have hnil : s.toList = [] := List.length_eq_zero_iff.mp (by omega)
  exact h.1 (String.toList_inj.mp hnil)

variable {cs title : List Chunk} {c : Chunk} {t : String}

lemma ne_nil_of_plain (h : Plain (titleText cs)) : cs ≠ [] := by
  rintro rfl
  exact h.1 rfl

section Texts

variable {dir P : List String} {H : List (PathBuf × PathBuf)} {s s' : HierarchyState}

lemma runFrom_texts_cons (c : Chunk) (cs : List Chunk) :
    runFrom dir s (texts (c :: cs)) = (addText s c.str).bind fun s => runFrom dir s (texts cs) := by
  cases c <;> rfl

lemma texts_append (cs ds : List Chunk) : texts (cs ++ ds) = texts cs ++ texts ds :=
  List.map_append

lemma runFrom_texts_append (cs ds : List Chunk) :
    runFrom dir s (texts (cs ++ ds)) =
      (runFrom dir s (texts cs)).bind fun s => runFrom dir s (texts ds) := by
  rw [texts_append, runFrom_append]

lemma runFrom_texts_inserts (h : runFrom dir s (texts cs) = some s') :
    s'.inserts = s.inserts := by
  induction cs generalizing s with
  | nil =>
    obtain rfl := Option.some.inj h
    rfl
  | cons c cs ih =>
    rw [runFrom_texts_cons] at h
    obtain ⟨s₁, hs₁, h⟩ := Option.bind_eq_some_iff.mp h
    rw [ih h]
    simp only [addText] at hs₁
    split_ifs at hs₁
    · obtain ⟨prevText, -, hs₁⟩ := Option.bind_eq_some_iff.mp hs₁
      obtain rfl := Option.some.inj hs₁
      rfl
    · obtain rfl := Option.some.inj hs₁
      rfl

/-- The parts of a title go on with its component. -/
lemma runFrom_texts_merging (ht : Plain t) (cs : List Chunk) :
    runFrom dir ⟨P ++ [t], true, H⟩ (texts cs) = some ⟨P ++ [t ++ clean cs], true, H⟩ := by
  induction cs generalizing t with
  | nil =>
    have hnil : clean [] = "" := rfl
    rw [hnil, String.append_empty]
    rfl
  | cons c cs ih =>
    have hplain := ht.append (sanitise c.str)
    have hadd : addText ⟨P ++ [t], true, H⟩ c.str = some ⟨P ++ [t ++ sanitise c.str], true, H⟩ := by
      simp [addText, fileName_append ht, push_of_plain hplain]
    rw [runFrom_texts_cons, hadd, Option.bind_some, ih hplain, clean_cons, String.append_assoc]

lemma runFrom_texts_of_plain (hc : Plain c.str) (cs : List Chunk) :
    runFrom dir ⟨P, false, H⟩ (texts (c :: cs)) = some ⟨P ++ [clean (c :: cs)], true, H⟩ := by
  have hplain := plain_sanitise_iff.mpr hc
  have hadd : addText ⟨P, false, H⟩ c.str = some ⟨P ++ [sanitise c.str], true, H⟩ := by
    simp [addText, push_of_plain hplain]
  rw [runFrom_texts_cons, hadd, Option.bind_some, runFrom_texts_merging hplain, clean_cons]

lemma runFrom_texts_of_dots {d : Chunk} (hc : c.str = "..") (cs : List Chunk) :
    runFrom dir ⟨P, false, H⟩ (texts (c :: d :: cs)) = none := by
  have hsame : sanitise ".." = ".." := by decide
  have hadd : addText ⟨P, false, H⟩ c.str = some ⟨P ++ [".."], true, H⟩ := by
    simp [addText, hc, hsame, push]
  have hadd' : addText ⟨P ++ [".."], true, H⟩ d.str = none := by
    simp [addText, fileName]
  rw [runFrom_texts_cons, hadd, Option.bind_some, runFrom_texts_cons, hadd', Option.bind_none]

/-- A part that is no component leaves the path as it is, and the next one is merged into the
component above. -/
lemma runFrom_texts_of_not_plain (ht : Plain t) {d : Chunk} (hc : ¬ Plain c.str)
    (hdots : c.str ≠ "..") (cs : List Chunk) :
    runFrom dir ⟨P ++ [t], false, H⟩ (texts (c :: d :: cs)) =
      some ⟨P ++ [t ++ clean (d :: cs)], true, H⟩ := by
  have hempty : sanitise "" = "" := by decide
  have hdot : sanitise "." = "." := by decide
  have hadd : addText ⟨P ++ [t], false, H⟩ c.str = some ⟨P ++ [t], true, H⟩ := by
    by_cases he : c.str = ""
    · simp [addText, he, hempty, push]
    · have hd : c.str = "." := by
        by_contra hd
        exact hc ⟨he, hd, hdots⟩
      simp [addText, hd, hdot, push]
  rw [runFrom_texts_cons, hadd, Option.bind_some, runFrom_texts_merging ht]

/-- Readable parts are those that do not end in a panic. -/
lemma exists_runFrom_texts_iff (ht : Plain t) (cs : List Chunk) :
    (∃ s', runFrom dir ⟨P ++ [t], false, H⟩ (texts cs) = some s') ↔ Readable cs := by
  rcases cs with _ | ⟨c, _ | ⟨d, cs⟩⟩
  · exact iff_of_true ⟨_, runFrom_nil⟩ (.inl (Nat.zero_le 1))
  · refine iff_of_true ⟨⟨push (P ++ [t]) (sanitise c.str), true, H⟩, ?_⟩ (.inl (Nat.le_refl 1))
    cases c <;> rfl
  · have hreadable : Readable (c :: d :: cs) ↔ c.str ≠ ".." := by simp [Readable]
    rw [hreadable]
    by_cases hc : Plain c.str
    · rw [runFrom_texts_of_plain hc]
      simp [hc.2.2]
    · by_cases hdots : c.str = ".."
      · rw [runFrom_texts_of_dots hdots]
        simp [hdots]
      · rw [runFrom_texts_of_not_plain ht hc hdots]
        simp [hdots]

/-- A title gets its component exactly when it starts with one. -/
lemma firstPlain_of_path (ht : Plain t) (htitle : Plain (titleText title))
    (hrun : runFrom dir ⟨P ++ [t], false, H⟩ (texts title) = some s')
    (hpath : s'.path = P ++ [t] ++ [clean title]) :
    FirstPlain title := by
  intro c hc
  by_contra hplain
  obtain ⟨cs, rfl⟩ : ∃ cs, title = c :: cs := by
    cases title with
    | nil => cases hc
    | cons c' cs => exact ⟨cs, by rw [Option.some.inj hc]⟩
  cases cs with
  | nil =>
    apply hplain
    rw [titleText, titleText, String.append_empty] at htitle
    exact htitle
  | cons d cs =>
    by_cases hdots : c.str = ".."
    · rw [runFrom_texts_of_dots hdots] at hrun
      cases hrun
    · rw [runFrom_texts_of_not_plain ht hplain hdots] at hrun
      obtain rfl := Option.some.inj hrun
      have hlength := congrArg List.length hpath
      simp at hlength

lemma runFrom_title (hplain : Plain (titleText title)) (hfirst : FirstPlain title) :
    runFrom dir ⟨P, false, H⟩ (texts title) = some ⟨P ++ [clean title], true, H⟩ := by
  obtain ⟨c, cs, rfl⟩ := List.exists_cons_of_ne_nil (ne_nil_of_plain hplain)
  exact runFrom_texts_of_plain (hfirst c rfl) cs

end Texts

/-! ### Items -/

section Items

variable {dir P : List String} {H : List (PathBuf × PathBuf)} {s s' : HierarchyState}

mutual

/-- An item records its directory and those of its items, and leaves the path as it was. -/
lemma runFrom_item (item : Item) (P : PathBuf) (H : List (PathBuf × PathBuf))
    (hplain : ∀ title ∈ itemTitles item, Plain (titleText title))
    (hfirst : ∀ title ∈ itemTitles item, FirstPlain title) :
    runFrom dir ⟨P, false, H⟩ (itemEvents item) =
      some ⟨P, false, H ++ itemDirectories dir P item⟩ := by
  match item with
  | .mk title path sub =>
    rw [itemTitles, List.forall_mem_cons] at hplain hfirst
    have hsub := runFrom_items sub (P ++ [clean title])
      (H ++ [(fullPath dir path, P ++ [clean title])]) hplain.2 hfirst.2
    rw [itemEvents, runFrom_append, runFrom_title hplain.1 hfirst.1, Option.bind_some, runFrom_cons]
    simp only [hierarchyStep, Option.bind_some]
    rw [runFrom_append, hsub, Option.bind_some, runFrom_cons]
    simp [hierarchyStep, runFrom_nil, itemDirectories]

lemma runFrom_items (items : List Item) (P : PathBuf) (H : List (PathBuf × PathBuf))
    (hplain : ∀ title ∈ itemsTitles items, Plain (titleText title))
    (hfirst : ∀ title ∈ itemsTitles items, FirstPlain title) :
    runFrom dir ⟨P, false, H⟩ (itemsEvents items) =
      some ⟨P, false, H ++ itemsDirectories dir P items⟩ := by
  match items with
  | [] => simp [itemsEvents, itemsDirectories, runFrom_nil]
  | item :: items =>
    rw [itemsTitles, List.forall_mem_append] at hplain hfirst
    rw [itemsEvents, runFrom_append, runFrom_item item P H hplain.1 hfirst.1, Option.bind_some,
      runFrom_items items P _ hplain.2 hfirst.2, itemsDirectories, List.append_assoc]

end

/-- What is recorded after a title for another path than the one of the title. -/
lemma clash_of_path_ne {path : String} {root : PathBuf} {events : List Event}
    {s₁ : HierarchyState} (htitle : runFrom dir s (texts title) = some s₁)
    (hne : s₁.path ≠ root ++ [clean title])
    (hrun : runFrom dir s (texts title ++ .stop (.link path) :: events) = some s')
    (dirs : List (PathBuf × PathBuf)) :
    Clash s'.inserts (s.inserts ++ (fullPath dir path, root ++ [clean title]) :: dirs) := by
  rw [runFrom_append, htitle, Option.bind_some] at hrun
  have hrecorded : s.inserts ++ [(fullPath dir path, s₁.path)] <+: s'.inserts := by
    rw [← runFrom_texts_inserts htitle]
    exact runFrom_inserts (s := { s₁ with
      inserts := s₁.inserts ++ [(fullPath dir path, s₁.path)],
      prevEventIsTextOrCode := false }) hrun
  have hclash : Clash (s.inserts ++ [(fullPath dir path, s₁.path)])
      (s.inserts ++ [(fullPath dir path, root ++ [clean title])]) := by
    apply clash_append_singleton
    intro heq
    exact hne (Prod.mk.inj heq).2
  apply hclash.mono hrecorded
  rw [List.append_cons s.inserts _ dirs]
  exact List.prefix_append _ _

mutual

/-- An item with a title that does not start with a component has another directory. -/
lemma clash_of_item (item : Item) {P : PathBuf} {t : String} (ht : Plain t)
    (H : List (PathBuf × PathBuf)) {s' : HierarchyState}
    (hplain : ∀ title ∈ itemTitles item, Plain (titleText title))
    (hfirst : ¬ ∀ title ∈ itemTitles item, FirstPlain title)
    (hrun : runFrom dir ⟨P ++ [t], false, H⟩ (itemEvents item) = some s') :
    Clash s'.inserts (H ++ itemDirectories dir (P ++ [t]) item) := by
  match item with
  | .mk title path sub =>
    rw [itemTitles, List.forall_mem_cons] at hplain hfirst
    rw [itemEvents] at hrun
    rw [itemDirectories]
    obtain ⟨s₁, hs₁, -⟩ := Option.bind_eq_some_iff.mp ((runFrom_append _ _).symm.trans hrun)
    by_cases hpath : s₁.path = P ++ [t] ++ [clean title]
    · -- the title has its component, so the failure is below
      have htitle := firstPlain_of_path ht hplain.1 hs₁ hpath
      rw [runFrom_append, runFrom_title hplain.1 htitle, Option.bind_some, runFrom_cons] at hrun
      simp only [hierarchyStep, Option.bind_some, runFrom_append] at hrun
      obtain ⟨s₂, hs₂, hrest⟩ := Option.bind_eq_some_iff.mp hrun
      have hclash := clash_of_items sub (plain_sanitise_iff.mpr hplain.1) _ hplain.2
        (fun hsub => hfirst ⟨htitle, hsub⟩) hs₂
      rw [List.append_cons]
      exact hclash.mono (runFrom_inserts hrest) (List.prefix_refl _)
    · exact clash_of_path_ne hs₁ hpath hrun _

lemma clash_of_items (items : List Item) {P : PathBuf} {t : String} (ht : Plain t)
    (H : List (PathBuf × PathBuf)) {s' : HierarchyState}
    (hplain : ∀ title ∈ itemsTitles items, Plain (titleText title))
    (hfirst : ¬ ∀ title ∈ itemsTitles items, FirstPlain title)
    (hrun : runFrom dir ⟨P ++ [t], false, H⟩ (itemsEvents items) = some s') :
    Clash s'.inserts (H ++ itemsDirectories dir (P ++ [t]) items) := by
  match items with
  | [] =>
    apply absurd _ hfirst
    intro title htitle
    cases htitle
  | item :: items =>
    rw [itemsTitles, List.forall_mem_append] at hplain hfirst
    rw [itemsEvents, runFrom_append] at hrun
    obtain ⟨s₁, hs₁, hrest⟩ := Option.bind_eq_some_iff.mp hrun
    rw [itemsDirectories, ← List.append_assoc]
    by_cases hitem : ∀ title ∈ itemTitles item, FirstPlain title
    · rw [runFrom_item item _ H hplain.1 hitem] at hs₁
      obtain rfl := Option.some.inj hs₁
      exact clash_of_items items ht _ hplain.2 (fun hitems => hfirst ⟨hitem, hitems⟩) hrest
    · exact (clash_of_item item ht H hplain.1 hitem hs₁).mono (runFrom_inserts hrest)
        (List.prefix_append _ _)

end

end Items

/-! ### Headings and links outside of lists -/

section Blocks

variable {dir P : List String} {H : List (PathBuf × PathBuf)} {s s' : HierarchyState}
  {rest summary : List Block}

/-- The next link is recorded with another directory, whatever headings come before it. -/
def Spoilt (dir root : PathBuf) (s : HierarchyState) : Prop :=
  ∀ hs cs s', Plain (titleText cs) → runFrom dir s (texts (hs ++ cs)) = some s' →
    s'.path ≠ root ++ [clean cs]

/-- After a heading the next title is merged into it. -/
lemma spoilt_of_heading (ht : Plain t)
    (hrun : runFrom dir ⟨P ++ [t], false, H⟩ (texts (c :: cs)) = some s) :
    Spoilt dir (P ++ [t]) s := by
  intro hs title s' htitle hrest hpath
  have hall : runFrom dir ⟨P ++ [t], false, H⟩ (texts (c :: (cs ++ (hs ++ title)))) = some s' := by
    rw [← List.cons_append, runFrom_texts_append, hrun, Option.bind_some, hrest]
  by_cases hc : Plain c.str
  · rw [runFrom_texts_of_plain hc] at hall
    obtain rfl := Option.some.inj hall
    have heq := (List.append_inj' hpath rfl).2
    rw [clean_cons, ← List.append_assoc, clean_append, ← String.append_assoc] at heq
    exact append_ne_right (plain_sanitise_iff.mpr hc) _ _ (List.head_eq_of_cons_eq heq)
  · have hne : cs ++ (hs ++ title) ≠ [] := by
      simp [ne_nil_of_plain htitle]
    obtain ⟨d, ds, hds⟩ := List.exists_cons_of_ne_nil hne
    rw [hds] at hall
    by_cases hdots : c.str = ".."
    · rw [runFrom_texts_of_dots hdots] at hall
      cases hall
    · rw [runFrom_texts_of_not_plain ht hc hdots] at hall
      obtain rfl := Option.some.inj hall
      have hlength := congrArg List.length hpath
      simp at hlength

/-- After a link the next title is put under it. -/
lemma spoilt_of_link (ht : Plain t) : Spoilt dir P ⟨P ++ [t], false, H⟩ := by
  intro hs title s' htitle hrun hpath
  have hne : hs ++ title ≠ [] := by
    simp [ne_nil_of_plain htitle]
  obtain ⟨c, cs, hcs⟩ := List.exists_cons_of_ne_nil hne
  rw [hcs] at hrun
  by_cases hc : Plain c.str
  · rw [runFrom_texts_of_plain hc] at hrun
    obtain rfl := Option.some.inj hrun
    have hlength := congrArg List.length hpath
    simp at hlength
  · cases cs with
    | nil =>
      -- the only part is the title
      obtain ⟨rfl, rfl⟩ : hs = [] ∧ title = [c] := by
        rcases List.append_eq_singleton_iff.mp hcs with h | ⟨-, rfl⟩
        · exact h
        · exact absurd rfl (ne_nil_of_plain htitle)
      rw [titleText, titleText, String.append_empty] at htitle
      exact hc htitle
    | cons d cs =>
      by_cases hdots : c.str = ".."
      · rw [runFrom_texts_of_dots hdots] at hrun
        cases hrun
      · rw [runFrom_texts_of_not_plain ht hc hdots] at hrun
        obtain rfl := Option.some.inj hrun
        have heq : t ++ clean (d :: cs) = clean title :=
          List.head_eq_of_cons_eq (List.append_inj' hpath rfl).2
        cases hs with
        | nil =>
          rw [List.nil_append] at hcs
          rw [hcs, clean_cons c, ← String.toList_inj, String.toList_append, String.toList_append,
            List.append_cancel_right_eq, String.toList_inj] at heq
          exact hc (plain_sanitise_iff.mp (heq ▸ ht))
        | cons e hs =>
          have htail : hs ++ title = d :: cs := (List.cons.inj hcs).2
          rw [← htail, clean_append, ← String.append_assoc] at heq
          exact append_ne_right ht _ _ heq

variable (dir) in
/-- A summary with a link starts with headings and the title of the first link. -/
lemma exists_first_link (hplain : ∀ title ∈ rest.flatMap blockTitles, Plain (titleText title))
    (h : ¬ ∀ b ∈ rest, b.Quiet) (root : PathBuf) :
    ∃ hs title path events dirs, Plain (titleText title) ∧
      summaryEvents rest = texts hs ++ (texts title ++ .stop (.link path) :: events) ∧
      directories dir root rest = (fullPath dir path, root ++ [clean title]) :: dirs := by
  induction rest with
  | nil => simp at h
  | cons b rest ih =>
    rw [List.flatMap_cons, List.forall_mem_append] at hplain
    rw [List.forall_mem_cons] at h
    cases b with
    | heading text =>
      obtain ⟨hs, title, path, events, dirs, htitle, hevents, hdirs⟩ :=
        ih hplain.2 fun hrest => h ⟨trivial, hrest⟩
      refine ⟨text ++ hs, title, path, events, dirs, htitle, ?_, hdirs⟩
      have hcons : summaryEvents (.heading text :: rest) = texts text ++ summaryEvents rest := rfl
      rw [hcons, hevents, texts_append, List.append_assoc]
    | link title path =>
      exact ⟨[], title, path, summaryEvents rest, directories dir root rest,
        hplain.1 title List.mem_cons_self, by simp [summaryEvents, blockEvents, texts], rfl⟩
    | list items =>
      cases items with
      | nil => exact ih hplain.2 fun hrest => h ⟨rfl, hrest⟩
      | cons item items =>
        obtain ⟨title, path, sub⟩ := item
        refine ⟨[], title, path, itemsEvents sub ++ .stop .item :: (itemsEvents items ++
          summaryEvents rest), itemsDirectories dir (root ++ [clean title]) sub ++
          (itemsDirectories dir root items ++ directories dir root rest), hplain.1 title ?_, ?_, ?_⟩
        · simp [blockTitles, itemsTitles, itemTitles]
        · simp [summaryEvents, blockEvents, itemsEvents, itemEvents, texts]
        · simp [directories, blockDirectories, itemsDirectories, itemDirectories]

/-- A link after a state that is spoilt has another directory. -/
lemma clash_of_spoilt {root : PathBuf} (hs : Spoilt dir root s)
    (hplain : ∀ title ∈ rest.flatMap blockTitles, Plain (titleText title))
    (h : ¬ ∀ b ∈ rest, b.Quiet) (hrun : runFrom dir s (summaryEvents rest) = some s') :
    Clash s'.inserts (s.inserts ++ directories dir root rest) := by
  obtain ⟨headings, title, path, events, dirs, htitle, hevents, hdirs⟩ :=
    exists_first_link dir hplain h root
  rw [hevents, runFrom_append] at hrun
  obtain ⟨s₁, hs₁, hrun⟩ := Option.bind_eq_some_iff.mp hrun
  obtain ⟨s₂, hs₂, -⟩ := Option.bind_eq_some_iff.mp ((runFrom_append _ _).symm.trans hrun)
  have hpath : s₂.path ≠ root ++ [clean title] := by
    apply hs headings title s₂ htitle
    rw [runFrom_texts_append, hs₁, Option.bind_some, hs₂]
  rw [hdirs, ← runFrom_texts_inserts hs₁]
  exact clash_of_path_ne hs₂ hpath hrun _

variable (dir) in
lemma summaryEvents_of_quiet (h : ∀ b ∈ rest, b.Quiet) :
    summaryEvents rest = texts (headingTexts rest) ∧ ∀ root, directories dir root rest = [] := by
  induction rest with
  | nil => exact ⟨rfl, fun _ => rfl⟩
  | cons b rest ih =>
    rw [List.forall_mem_cons] at h
    obtain ⟨hevents, hdirs⟩ := ih h.2
    cases b with
    | heading text =>
      refine ⟨?_, fun root => hdirs root⟩
      have hcons : summaryEvents (.heading text :: rest) = texts text ++ summaryEvents rest := rfl
      rw [hcons, hevents, ← texts_append]
      rfl
    | link title path => exact h.1.elim
    | list items =>
      obtain rfl : items = [] := h.1
      exact ⟨hevents, fun root => hdirs root⟩

/-! ### Whole summaries -/

lemma summaryEvents_cons (b : Block) (rest : List Block) :
    summaryEvents (b :: rest) = blockEvents b ++ summaryEvents rest := rfl

lemma directories_cons (root : PathBuf) (b : Block) (rest : List Block) :
    directories dir root (b :: rest) = blockDirectories dir root b ++ directories dir root rest :=
  rfl

/-- A link of its own is recorded under the root, and its title stays in the path. -/
lemma runFrom_link (hplain : Plain (titleText title)) (hfirst : FirstPlain title) (path : String) :
    runFrom dir ⟨P, false, H⟩ (texts title ++ [.stop (.link path)]) =
      some ⟨P ++ [clean title], false, H ++ [(fullPath dir path, P ++ [clean title])]⟩ := by
  rw [runFrom_append, runFrom_title hplain hfirst, Option.bind_some]
  rfl

variable (dir) in
lemma exists_runFrom_quiet (ht : Plain t) (hquiet : ∀ b ∈ rest, b.Quiet)
    (hreadable : Readable (headingTexts rest)) (root : PathBuf) :
    ∃ s', runFrom dir ⟨P ++ [t], false, H⟩ (summaryEvents rest) = some s' ∧
      s'.inserts = H ++ directories dir root rest := by
  obtain ⟨hevents, hdirs⟩ := summaryEvents_of_quiet dir hquiet
  obtain ⟨s', hs'⟩ := (exists_runFrom_texts_iff ht _).mpr hreadable
  refine ⟨s', hevents ▸ hs', ?_⟩
  rw [hdirs, List.append_nil, runFrom_texts_inserts hs']

/-- In an ordered summary every link is recorded with the directory of its titles. -/
lemma exists_runFrom_of_ordered (ht : Plain t)
    (hplain : ∀ title ∈ summary.flatMap blockTitles, Plain (titleText title))
    (h : Ordered summary) (H : List (PathBuf × PathBuf)) :
    ∃ s', runFrom dir ⟨P ++ [t], false, H⟩ (summaryEvents summary) = some s' ∧
      s'.inserts = H ++ directories dir (P ++ [t]) summary := by
  induction summary generalizing H with
  | nil => exact ⟨_, runFrom_nil, (List.append_nil H).symm⟩
  | cons b rest ih =>
    rw [List.flatMap_cons, List.forall_mem_append] at hplain
    rw [summaryEvents_cons, directories_cons, ← List.append_assoc]
    cases b with
    | list items =>
      rw [runFrom_append, blockEvents, runFrom_items items _ _ hplain.1 h.1, Option.bind_some]
      exact ih hplain.2 h.2 _
    | heading text =>
      cases text with
      | nil =>
        obtain ⟨s', hs', hdirs⟩ := ih hplain.2 h H
        exact ⟨s', hs', by rw [hdirs, blockDirectories, List.append_nil]⟩
      | cons c cs =>
        obtain ⟨hquiet, hreadable⟩ := h
        have hquiet' : ∀ b ∈ Block.heading (c :: cs) :: rest, b.Quiet :=
          List.forall_mem_cons.mpr ⟨trivial, hquiet⟩
        obtain ⟨s', hs', hdirs⟩ :=
          exists_runFrom_quiet dir (P := P) (H := H) ht hquiet' hreadable (P ++ [t])
        exact ⟨s', hs', by rw [hdirs, directories_cons, ← List.append_assoc]⟩
    | link title path =>
      obtain ⟨hfirst, hquiet, hreadable⟩ := h
      have htitle := hplain.1 title List.mem_cons_self
      rw [runFrom_append, blockEvents, runFrom_link htitle hfirst, Option.bind_some]
      exact exists_runFrom_quiet dir (plain_sanitise_iff.mpr htitle) hquiet hreadable _

/-- In any other summary some link is recorded with another directory, or the loop panics. -/
lemma clash_of_not_ordered (ht : Plain t)
    (hplain : ∀ title ∈ summary.flatMap blockTitles, Plain (titleText title))
    (h : ¬ Ordered summary) (H : List (PathBuf × PathBuf))
    (hrun : runFrom dir ⟨P ++ [t], false, H⟩ (summaryEvents summary) = some s') :
    Clash s'.inserts (H ++ directories dir (P ++ [t]) summary) := by
  induction summary generalizing H with
  | nil => exact absurd trivial h
  | cons b rest ih =>
    rw [List.flatMap_cons, List.forall_mem_append] at hplain
    rw [summaryEvents_cons, runFrom_append] at hrun
    rw [directories_cons, ← List.append_assoc]
    obtain ⟨s₁, hs₁, hrest⟩ := Option.bind_eq_some_iff.mp hrun
    cases b with
    | list items =>
      by_cases hfirst : ∀ title ∈ itemsTitles items, FirstPlain title
      · rw [blockEvents, runFrom_items items _ _ hplain.1 hfirst] at hs₁
        obtain rfl := Option.some.inj hs₁
        exact ih hplain.2 (fun hordered => h ⟨hfirst, hordered⟩) _ hrest
      · exact (clash_of_items items ht H hplain.1 hfirst hs₁).mono (runFrom_inserts hrest)
          (List.prefix_append _ _)
    | heading text =>
      rw [blockDirectories, List.append_nil]
      cases text with
      | nil =>
        obtain rfl := Option.some.inj hs₁
        exact ih hplain.2 h H hrest
      | cons c cs =>
        have hsame : s₁.inserts = H := runFrom_texts_inserts hs₁
        by_cases hquiet : ∀ b ∈ rest, b.Quiet
        · -- only the texts of headings are left, and they are read
          have hall : runFrom dir ⟨P ++ [t], false, H⟩ (texts (c :: cs ++ headingTexts rest)) =
              some s' := by
            rw [runFrom_texts_append, ← (summaryEvents_of_quiet dir hquiet).1]
            exact hrun
          exact absurd ⟨hquiet, (exists_runFrom_texts_iff ht _).mp ⟨s', hall⟩⟩ h
        · rw [← hsame]
          exact clash_of_spoilt (spoilt_of_heading ht hs₁) hplain.2 hquiet hrest
    | link title path =>
      have htitle := hplain.1 title List.mem_cons_self
      obtain ⟨s₂, hs₂, -⟩ := Option.bind_eq_some_iff.mp ((runFrom_append _ _).symm.trans hs₁)
      by_cases hpath : s₂.path = P ++ [t] ++ [clean title]
      · have hfirst := firstPlain_of_path ht htitle hs₂ hpath
        have hlink := plain_sanitise_iff.mpr htitle
        rw [blockEvents, runFrom_link htitle hfirst] at hs₁
        obtain rfl := Option.some.inj hs₁
        by_cases hquiet : ∀ b ∈ rest, b.Quiet
        · rw [(summaryEvents_of_quiet dir hquiet).1] at hrest
          exact absurd ⟨hfirst, hquiet, (exists_runFrom_texts_iff hlink _).mp ⟨s', hrest⟩⟩ h
        · exact clash_of_spoilt (spoilt_of_link hlink) hplain.2 hquiet hrest
      · have hclash := clash_of_path_ne hs₂ hpath hs₁ []
        exact hclash.mono (runFrom_inserts hrest) (List.prefix_append _ _)

variable (dir) in
/-- Before a list with an item an ordered summary has lists only. -/
lemma runFrom_before {before after : List Block} {item : Item} {items : List Item}
    (hplain : ∀ title ∈ before.flatMap blockTitles, Plain (titleText title))
    (h : Ordered (before ++ .list (item :: items) :: after)) (H : List (PathBuf × PathBuf)) :
    runFrom dir ⟨P ++ [t], false, H⟩ (summaryEvents before) =
        some ⟨P ++ [t], false, H ++ directories dir (P ++ [t]) before⟩ ∧
      ∀ title ∈ itemsTitles (item :: items), FirstPlain title := by
  induction before generalizing H with
  | nil => exact ⟨congrArg some (by simp [directories]), h.1⟩
  | cons b before ih =>
    rw [List.flatMap_cons, List.forall_mem_append] at hplain
    have hnot : ¬ ∀ b ∈ before ++ .list (item :: items) :: after, b.Quiet := by
      intro hquiet
      have hlist : (Block.list (item :: items)).Quiet := hquiet _ (by simp)
      cases hlist
    rw [summaryEvents_cons, directories_cons, ← List.append_assoc]
    cases b with
    | list items' =>
      rw [runFrom_append, blockEvents, runFrom_items items' _ _ hplain.1 h.1, Option.bind_some]
      exact ih hplain.2 h.2 _
    | heading text =>
      cases text with
      | nil =>
        rw [blockDirectories, List.append_nil]
        exact ih hplain.2 h H
      | cons c cs => exact absurd h.1 hnot
    | link title path => exact absurd h.2.1 hnot

lemma itemsTitles_append (items items' : List Item) :
    itemsTitles (items ++ items') = itemsTitles items ++ itemsTitles items' := by
  induction items with
  | nil => rfl
  | cons item items ih => rw [List.cons_append, itemsTitles, itemsTitles, ih, List.append_assoc]

/-- The path is the root after an outermost item. -/
lemma exists_runFrom_endsItem
    (hplain : ∀ title ∈ summary.flatMap blockTitles, Plain (titleText title))
    (h : Ordered summary) {events : List Event} (hends : EndsItem summary events)
    (H : List (PathBuf × PathBuf)) :
    ∃ s', runFrom dir ⟨P ++ [t], false, H⟩ events = some s' ∧ s'.path = P ++ [t] := by
  obtain ⟨before, done, item, rest, after, rfl, rfl⟩ := hends
  rw [List.flatMap_append, List.flatMap_cons, List.forall_mem_append, List.forall_mem_append]
    at hplain
  obtain ⟨first, items, hitems⟩ : ∃ first items, done ++ item :: rest = first :: items :=
    List.exists_cons_of_ne_nil (by simp)
  obtain ⟨hbefore, hfirst⟩ := runFrom_before dir (P := P) (t := t) hplain.1 (hitems ▸ h) H
  have hsub : ∀ title ∈ itemsTitles (done ++ [item]),
      title ∈ itemsTitles (done ++ item :: rest) := by
    intro title htitle
    rw [List.append_cons, itemsTitles_append]
    exact List.mem_append_left _ htitle
  rw [runFrom_append, hbefore, Option.bind_some, runFrom_items]
  · exact ⟨_, rfl, rfl⟩
  · exact fun title htitle => hplain.2.1 title (hsub title htitle)
  · exact fun title htitle => hfirst title (hitems ▸ hsub title htitle)

end Blocks

/-- For every sequence of events of a summary whose titles are components: the hierarchy mirrors the
summary exactly when it is ordered. -/
theorem mirrors_iff_ordered (book : Book) {summary : List Block} {events : List Event}
    (hplain : ∀ title ∈ summary.flatMap blockTitles, Plain (titleText title))
    (hevents : events.filter Event.relevant = summaryEvents summary) :
    Mirrors book summary events ↔ Ordered summary := by
  have hparse : ∀ events, parseHierarchyWithSummary book events =
      runFrom book.summaryDir ⟨book.root, false, book.inserts⟩ (events.filter Event.relevant) :=
    fun events => (runFrom_filter events).symm
  rw [Mirrors]
  simp only [hparse, hevents, book.root_eq]
  constructor
  · rintro ⟨⟨s, hrun, hdirs, -⟩, -⟩
    by_contra hordered
    exact (clash_of_not_ordered book.plain hplain hordered _ hrun).ne hdirs
  · intro hordered
    constructor
    · obtain ⟨s, hrun, hdirs⟩ := exists_runFrom_of_ordered book.plain hplain hordered book.inserts
      exact ⟨s, hrun, hdirs, fun x => hdirs ▸ Dict.mem_update_iff⟩
    · intro pre post _ hends
      exact exists_runFrom_endsItem hplain hordered hends _

/-- A book with a name of one component. -/
def nomicon : Book :=
  { name := "The Rustonomicon", plain := by decide, slash := by decide,
    summaryDir := ["src", "doc", "nomicon", "src"], inserts := [] }

theorem mirrors_chapter :
    Mirrors nomicon
      [.list [.mk [.text "Data Layout"] "data.md"
        [.mk [.code "repr", .text "(Rust)"] "repr-rust.md" []]]]
      [.start .list, .start .item, .start (.link "data.md"), .text "Data Layout",
       .stop (.link "data.md"), .start .list, .start .item, .start (.link "repr-rust.md"),
       .code "repr", .text "(Rust)", .stop (.link "repr-rust.md"), .stop .item, .stop .list,
       .stop .item, .stop .list] := by
  refine (mirrors_iff_ordered nomicon ?_ rfl).mpr ?_
  · decide
  · simp only [Ordered, itemsTitles, itemTitles, FirstPlain]
    decide

/-- After a heading the title of the first chapter is merged into it, and after a link the chapter
is put under it. -/
theorem not_mirrors_heading :
    ¬ Mirrors nomicon [.heading [.text "Part"], .list [.mk [.text "Races"] "races.md" []]]
      [.start .heading, .text "Part", .stop .heading, .start .list, .start .item,
       .start (.link "races.md"), .text "Races", .stop (.link "races.md"), .stop .item,
       .stop .list] ∧
    ¬ Mirrors nomicon [.link [.text "Preface"] "preface.md",
      .list [.mk [.text "Races"] "races.md" []]]
      [.start .paragraph, .start (.link "preface.md"), .text "Preface", .stop (.link "preface.md"),
       .stop .paragraph, .start .list, .start .item, .start (.link "races.md"), .text "Races",
       .stop (.link "races.md"), .stop .item, .stop .list] := by
  constructor
  · rintro ⟨⟨s, hrun, hdirs, -⟩, -⟩
    revert hdirs
    obtain rfl := Option.some.inj hrun
    decide
  · rintro ⟨⟨s, hrun, hdirs, -⟩, -⟩
    revert hdirs
    obtain rfl := Option.some.inj hrun
    decide

end Rmc.Bookrunner
