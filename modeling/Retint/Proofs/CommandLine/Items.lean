import Mathlib.Data.List.Induction
import Retint.CommandLine.Arguments

/-!
# Arguments as items

A command line is a list of items: paths, flags, and options with their values. The first argument
of an item says what it is and whether a value belongs to it, so a list of arguments is cut into
items in one way at most. The arguments are accepted exactly if they can be cut and there is one
path among the items, and of each option the last value counts. Therefore the order of the items
does not matter as long as no option stands twice.
-/

namespace Retint.Arguments

/-- Something that can stand in the arguments. -/
inductive Item where
  /-- The option for the language, with its name. -/
  | language (name : Text) (language : Language) (named : Language.ofName? name = some language)
  /-- The option for the position, with the number of pixels. -/
  | scroll (written : Text) (px : Float32) (valid : pixels? written = some px)
  /-- The option for the height, with the number of pixels. -/
  | height (written : Text) (px : Float32) (valid : pixels? written = some px)
  /-- The flag that asks for the kinds of nodes. -/
  | listKinds
  /-- A path. -/
  | path (path : Text) (plain : "--".toList.isPrefixOf path = false)

namespace Item

/-- The arguments that the item is written with. -/
def words : Item → List Text
  | language name _ _ => ["--lang".toList, name]
  | scroll written _ _ => ["--scroll".toList, written]
  | height written _ _ => ["--height".toList, written]
  | listKinds => ["--list-kinds".toList]
  | path p _ => [p]

/-- The language, if the item gives one. -/
def language? : Item → Option Language
  | language _ l _ => some l
  | _ => none

/-- The position, if the item gives one. -/
def scroll? : Item → Option Float32
  | scroll _ px _ => some px
  | _ => none

/-- The height, if the item gives one. -/
def height? : Item → Option Float32
  | height _ px _ => some px
  | _ => none

/-- The path, if the item is one. -/
def path? : Item → Option Text
  | path p _ => some p
  | _ => none

end Item

/-- The arguments that some items are written with. -/
def written (items : List Item) : List Text := items.flatMap Item.words

/-- The languages that some items give, in their order. -/
def languages (items : List Item) : List Language := items.filterMap Item.language?

/-- The positions that some items give, in their order. -/
def scrolls (items : List Item) : List Float32 := items.filterMap Item.scroll?

/-- The heights that some items give, in their order. -/
def heights (items : List Item) : List Float32 := items.filterMap Item.height?

/-- The paths among some items, in their order. -/
def paths (items : List Item) : List Text := items.filterMap Item.path?

/-- The options that take a value. -/
def valueOptions : List Text := ["--lang".toList, "--scroll".toList, "--height".toList]

/-- Some items ask for something: there is one path, and of each option the last value counts. -/
structure AskFor (items : List Item) (a : Arguments) : Prop where
  path : paths items = [a.path]
  language : a.language = (languages items).getLast?
  scroll : a.scroll = (scrolls items).getLast?.getD 0
  height : a.height = (heights items).getLast?
  listKinds : a.listKinds = true ↔ .listKinds ∈ items

variable {items items' later : List Item} {item item' : Item} {args rest rest' : List Text}
  {found found' : Found} {a : Arguments}

/-! ### Cutting arguments into items -/

/-- A path is none of the words that begin with two hyphens. -/
theorem ne_of_plain {path word : Text} (plain : "--".toList.isPrefixOf path = false)
    (hword : "--".toList.isPrefixOf word = true) : path ≠ word := by
  rintro rfl
  rw [plain] at hword
  contradiction

/-- What an item begins with and what it takes with it: an option with a value takes the next
argument, whatever it looks like, and nothing else takes one. -/
theorem words_cases (item : Item) :
    (∃ option ∈ valueOptions, ∃ value, item.words = [option, value]) ∨
      ∃ arg, arg ∉ valueOptions ∧ item.words = [arg] := by
  cases item with
  | language name l named => exact .inl ⟨_, by decide, name, rfl⟩
  | scroll written px valid | height written px valid => exact .inl ⟨_, by decide, written, rfl⟩
  | listKinds => exact .inr ⟨_, by decide, rfl⟩
  | path p plain =>
    refine .inr ⟨p, fun hmem => ?_, rfl⟩
    simp only [valueOptions, List.mem_cons, List.not_mem_nil, or_false] at hmem
    rcases hmem with hp | hp | hp <;> exact ne_of_plain plain (by decide) hp

/-- The arguments that an item is written with say which item it is. -/
theorem words_inj (h : item.words = item'.words) : item = item' := by
  cases item with
  | language name l named =>
    cases item' with
    | language name' l' named' =>
      obtain rfl : name = name' := by simpa [Item.words] using h
      obtain rfl : l = l' := Option.some.inj (named.symm.trans named')
      rfl
    | scroll | height | listKinds | path => simp [Item.words] at h
  | scroll written px valid =>
    cases item' with
    | scroll written' px' valid' =>
      obtain rfl : written = written' := by simpa [Item.words] using h
      obtain rfl : px = px' := Option.some.inj (valid.symm.trans valid')
      rfl
    | language | height | listKinds | path => simp [Item.words] at h
  | height written px valid =>
    cases item' with
    | height written' px' valid' =>
      obtain rfl : written = written' := by simpa [Item.words] using h
      obtain rfl : px = px' := Option.some.inj (valid.symm.trans valid')
      rfl
    | language | scroll | listKinds | path => simp [Item.words] at h
  | listKinds =>
    cases item' with
    | listKinds => rfl
    | path p plain => exact absurd (List.singleton_inj.mp h).symm (ne_of_plain plain (by decide))
    | language | scroll | height => simp [Item.words] at h
  | path p plain =>
    cases item' with
    | path p' plain' =>
      obtain rfl : p = p' := List.singleton_inj.mp h
      rfl
    | listKinds => exact absurd (List.singleton_inj.mp h) (ne_of_plain plain (by decide))
    | language | scroll | height => simp [Item.words] at h

/-- An item ends where the next one begins, whatever stands behind it. -/
theorem words_append_inj (h : item.words ++ rest = item'.words ++ rest') :
    item = item' ∧ rest = rest' := by
  have hwords : item.words = item'.words ∧ rest = rest' := by
    rcases words_cases item with ⟨option, hoption, value, hitem⟩ | ⟨arg, harg, hitem⟩ <;>
      rcases words_cases item' with ⟨option', hoption', value', hitem'⟩ | ⟨arg', harg', hitem'⟩ <;>
      rw [hitem, hitem'] at h ⊢ <;>
      simp only [List.cons_append, List.nil_append, List.cons.injEq] at h
    · obtain ⟨rfl, rfl, hrest⟩ := h
      exact ⟨rfl, hrest⟩
    · exact absurd (h.1 ▸ hoption) harg'
    · exact absurd (h.1 ▸ hoption') harg
    · obtain ⟨rfl, hrest⟩ := h
      exact ⟨rfl, hrest⟩
  exact ⟨words_inj hwords.1, hwords.2⟩

@[simp] theorem written_nil : written [] = [] := rfl

@[simp] theorem written_cons : written (item :: later) = item.words ++ written later :=
  List.flatMap_cons

theorem written_cons_ne_nil : written (item :: later) ≠ [] := by
  rw [written_cons]
  cases item <;> simp [Item.words]

/-- A list of arguments is cut into items in one way at most. -/
theorem written_inj (h : written items = written items') : items = items' := by
  induction items generalizing items' with
  | nil =>
    cases items' with
    | nil => rfl
    | cons item' later' => exact absurd h.symm written_cons_ne_nil
  | cons item later ih =>
    cases items' with
    | nil => exact absurd h written_cons_ne_nil
    | cons item' later' =>
      rw [written_cons, written_cons] at h
      obtain ⟨rfl, hlater⟩ := words_append_inj h
      rw [ih hlater]

/-- An option behind some items takes the next argument as its value. -/
theorem exists_item_of_option {option value : Text} (hoption : option ∈ valueOptions)
    (h : written items' = written items ++ option :: value :: rest) :
    ∃ item later, item.words = [option, value] ∧ items' = items ++ item :: later := by
  induction items generalizing items' with
  | nil =>
    cases items' with
    | nil => simp at h
    | cons item later =>
      rw [written_cons, written_nil, List.nil_append] at h
      refine ⟨item, later, ?_, rfl⟩
      rcases words_cases item with ⟨option', _, value', hitem⟩ | ⟨arg, harg, hitem⟩
      · rw [hitem] at h ⊢
        simp only [List.cons_append, List.cons.injEq] at h
        rw [h.1, h.2.1]
      · rw [hitem] at h
        exact absurd ((List.cons.inj h).1 ▸ hoption) harg
  | cons first items ih =>
    cases items' with
    | nil =>
      simp only [written_nil, List.nil_eq, List.append_eq_nil_iff] at h
      exact absurd h.1 written_cons_ne_nil
    | cons first' items' =>
      rw [written_cons, written_cons, List.append_assoc] at h
      obtain ⟨rfl, hlater⟩ := words_append_inj h
      obtain ⟨item, later, hitem, rfl⟩ := ih hlater
      exact ⟨item, later, hitem, rfl⟩

/-! ### Reading items -/

namespace Found

/-- What is found with one more item. -/
def add (found : Found) : Item → Found
  | .language _ l _ => { found with language := some l }
  | .scroll _ px _ => { found with scroll := px }
  | .height _ px _ => { found with height := some px }
  | .listKinds => { found with listKinds := true }
  | .path p _ => { found with path := some p }

end Found

/-- Reading takes one item after the other, as long as there is no second path. -/
theorem readFrom_words (hpath : found.path = none ∨ item.path? = none) :
    readFrom found (item.words ++ rest) = readFrom (found.add item) rest := by
  cases item with
  | language name l named =>
    rw [Item.words, List.cons_append, List.cons_append, List.nil_append, readFrom, if_pos rfl]
    split <;> simp_all [valueOf, Found.add]
  | scroll written px valid =>
    rw [Item.words, List.cons_append, List.cons_append, List.nil_append, readFrom,
      if_neg (by decide), if_pos rfl]
    split <;> simp_all [valueOf, Found.add]
  | height written px valid =>
    rw [Item.words, List.cons_append, List.cons_append, List.nil_append, readFrom,
      if_neg (by decide), if_neg (by decide), if_pos rfl]
    split <;> simp_all [valueOf, Found.add]
  | listKinds =>
    rw [Item.words, List.cons_append, List.nil_append, readFrom, if_neg (by decide),
      if_neg (by decide), if_neg (by decide), if_pos rfl]
    rfl
  | path p plain =>
    have hnone : found.path = none := hpath.resolve_right (by simp [Item.path?])
    rw [Item.words, List.cons_append, List.nil_append, readFrom,
      if_neg (ne_of_plain plain (by decide)), if_neg (ne_of_plain plain (by decide)),
      if_neg (ne_of_plain plain (by decide)), if_neg (ne_of_plain plain (by decide)),
      if_neg (Bool.eq_false_iff.mp plain), if_neg (by simp [hnone])]
    rfl

/-- The value of an option is the next argument, which has its form. -/
theorem valueOf_eq_ok_iff {α : Type} {option : String} {form? : Text → Option α}
    {fault : Text → UsageError} {value : α} :
    valueOf option form? fault args = .ok (value, rest) ↔
      ∃ arg, args = arg :: rest ∧ form? arg = some value := by
  cases args with
  | nil => simp [valueOf]
  | cons arg later =>
    simp only [valueOf]
    split
    · rename_i hform
      simp [hform]
    · rename_i a hform
      simp [hform, and_comm]

/-- Some items lead from what was found before them to what is found with them, and there is one
path at most. -/
structure LeadTo (found : Found) (items : List Item) (found' : Found) : Prop where
  single : (found.path.toList ++ paths items).length ≤ 1
  eq_foldl : found' = items.foldl Found.add found

theorem path_add (hpath : found.path = none ∨ item.path? = none) :
    (found.add item).path.toList ++ paths items = found.path.toList ++ paths (item :: items) := by
  cases item with
  | path p plain =>
    have hnone : found.path = none := hpath.resolve_right (by simp [Item.path?])
    simp [Found.add, paths, Item.path?, hnone]
  | language | scroll | height | listKinds =>
    rw [paths, paths, List.filterMap_cons_none rfl]
    rfl

/-- One more item in front. -/
theorem LeadTo.cons (hpath : found.path = none ∨ item.path? = none)
    (h : LeadTo (found.add item) items found') : LeadTo found (item :: items) found' := by
  refine ⟨?_, h.eq_foldl⟩
  rw [← path_add hpath]
  exact h.single

/-- What is found is found item by item. -/
theorem exists_items_of_readFrom (h : readFrom found args = .ok found') :
    ∃ items, written items = args ∧ LeadTo found items found' := by
  fun_induction readFrom found args with
  | case1 found =>
    cases h
    refine ⟨[], rfl, ?_, rfl⟩
    cases found.path <;> simp [paths]
  | case3 found rest l rest' hvalue ih =>
    obtain ⟨name, rfl, named⟩ := valueOf_eq_ok_iff.mp hvalue
    obtain ⟨items, rfl, hlead⟩ := ih h
    exact ⟨.language name l named :: items, rfl, .cons (.inr rfl) hlead⟩
  | case5 found rest px rest' hvalue _ ih =>
    obtain ⟨arg, rfl, valid⟩ := valueOf_eq_ok_iff.mp hvalue
    obtain ⟨items, rfl, hlead⟩ := ih h
    exact ⟨.scroll arg px valid :: items, rfl, .cons (.inr rfl) hlead⟩
  | case7 found rest px rest' hvalue _ _ ih =>
    obtain ⟨arg, rfl, valid⟩ := valueOf_eq_ok_iff.mp hvalue
    obtain ⟨items, rfl, hlead⟩ := ih h
    exact ⟨.height arg px valid :: items, rfl, .cons (.inr rfl) hlead⟩
  | case8 found rest _ _ _ ih =>
    obtain ⟨items, rfl, hlead⟩ := ih h
    exact ⟨.listKinds :: items, rfl, .cons (.inr rfl) hlead⟩
  | case11 found arg rest _ _ _ _ hplain hpath ih =>
    obtain ⟨items, rfl, hlead⟩ := ih h
    refine ⟨.path arg (Bool.eq_false_iff.mpr hplain) :: items, rfl, .cons (.inl ?_) hlead⟩
    simpa using hpath
  | case2 | case4 | case6 | case9 | case10 => cases h

/-- Some items with one path at most are read. -/
theorem readFrom_written (hsingle : (found.path.toList ++ paths items).length ≤ 1) :
    readFrom found (written items) = .ok (items.foldl Found.add found) := by
  induction items generalizing found with
  | nil => rw [written_nil, readFrom, List.foldl_nil]
  | cons item later ih =>
    have hpath : found.path = none ∨ item.path? = none := by
      cases hfound : found.path with
      | none => exact .inl rfl
      | some p =>
        right
        cases hitem : item.path? with
        | none => rfl
        | some p' => simp [hfound, paths, hitem] at hsingle
    rw [written_cons, readFrom_words hpath, List.foldl_cons]
    apply ih
    rwa [path_add hpath]

/-- What some items lead to is the last thing of each kind among them. -/
theorem foldl_add (items : List Item) :
    (items.foldl Found.add {}).path = (paths items).getLast? ∧
      (items.foldl Found.add {}).language = (languages items).getLast? ∧
      (items.foldl Found.add {}).scroll = (scrolls items).getLast?.getD 0 ∧
      (items.foldl Found.add {}).height = (heights items).getLast? ∧
      ((items.foldl Found.add {}).listKinds = true ↔ .listKinds ∈ items) := by
  induction items using List.reverseRecOn with
  | nil => simp [paths, languages, scrolls, heights]
  | append_singleton items item ih =>
    obtain ⟨hpath, hlanguage, hscroll, hheight, hkinds⟩ := ih
    simp only [paths, languages, scrolls, heights] at hpath hlanguage hscroll hheight
    rw [List.foldl_append, List.foldl_cons, List.foldl_nil]
    simp only [paths, languages, scrolls, heights, List.filterMap_append]
    cases item <;> simp [Found.add, Item.path?, Item.language?, Item.scroll?, Item.height?,
      List.filterMap_cons, hpath, hlanguage, hscroll, hheight, hkinds]

/-- What is asked for follows from what was found, if there is a path. -/
theorem read_eq_ok_iff_found : read args = .ok a ↔ ∃ found, readFrom {} args = .ok found ∧
    found.path = some a.path ∧ a.language = found.language ∧ a.scroll = found.scroll ∧
      a.height = found.height ∧ a.listKinds = found.listKinds := by
  unfold read
  cases hfound : readFrom {} args with
  | error fault => simp [bind, Except.bind]
  | ok found =>
    obtain ⟨path, language, scroll, height, listKinds⟩ := a
    cases hpath : found.path with
    | none => simp [bind, Except.bind, hpath]
    | some p => simp [bind, Except.bind, hpath, eq_comm]

/-- The arguments are accepted exactly if some items are written there that ask for something. -/
theorem read_eq_ok_iff : read args = .ok a ↔ ∃ items, written items = args ∧ AskFor items a := by
  rw [read_eq_ok_iff_found]
  constructor
  · rintro ⟨found, hfound, hpath, hlanguage, hscroll, hheight, hkinds⟩
    obtain ⟨items, hwritten, hlead⟩ := exists_items_of_readFrom hfound
    obtain ⟨hlast, hlanguages, hscrolls, hheights, hflag⟩ := foldl_add items
    rw [← hlead.eq_foldl] at hlast hlanguages hscrolls hheights hflag
    have hone : paths items = [a.path] := by
      have hsingle : (paths items).length ≤ 1 := hlead.single
      rw [hlast] at hpath
      match paths items, hsingle, hpath with
      | [p], _, hpath => simpa using hpath
    refine ⟨items, hwritten, hone, ?_, ?_, ?_, ?_⟩
    · rw [hlanguage, hlanguages]
    · rw [hscroll, hscrolls]
    · rw [hheight, hheights]
    · rw [hkinds, hflag]
  · rintro ⟨items, rfl, hask⟩
    obtain ⟨hlast, hlanguages, hscrolls, hheights, hflag⟩ := foldl_add items
    have hone := hask.path
    refine ⟨_, readFrom_written (by simp [hone]), ?_, ?_, ?_, ?_, ?_⟩
    · rw [hlast, hone, List.getLast?_singleton]
    · rw [hask.language, hlanguages]
    · rw [hask.scroll, hscrolls]
    · rw [hask.height, hheights]
    · rw [Bool.eq_iff_iff, hask.listKinds, hflag]

/-! ### The order of the items -/

/-- A list with one element at most is no other one by rearranging it. -/
theorem eq_of_perm {α : Type} {as bs : List α} (h : as.Perm bs) (hle : as.length ≤ 1) :
    as = bs := by
  match as, hle with
  | [], _ => exact (List.perm_nil.mp h.symm).symm
  | [x], _ => exact (List.perm_singleton.mp h.symm).symm

/-- Items ask for the same in every order, as long as no option stands twice. -/
theorem AskFor.perm (h : AskFor items a) (hperm : items.Perm items')
    (hlanguages : (languages items).length ≤ 1) (hscrolls : (scrolls items).length ≤ 1)
    (hheights : (heights items).length ≤ 1) : AskFor items' a := by
  have hpath : paths items = paths items' := eq_of_perm (hperm.filterMap _) (by simp [h.path])
  have hlanguage : languages items = languages items' :=
    eq_of_perm (hperm.filterMap _) hlanguages
  have hscroll : scrolls items = scrolls items' := eq_of_perm (hperm.filterMap _) hscrolls
  have hheight : heights items = heights items' := eq_of_perm (hperm.filterMap _) hheights
  refine ⟨?_, ?_, ?_, ?_, ?_⟩
  · rw [← hpath, h.path]
  · rw [← hlanguage, h.language]
  · rw [← hscroll, h.scroll]
  · rw [← hheight, h.height]
  · rw [h.listKinds, hperm.mem_iff]

/-- **The arguments are accepted exactly if they are items with one path among them, and the order
of the items does not matter.** A list of arguments is cut into items in one way at most, and an
option takes the argument behind it as its value, whatever that looks like. The arguments are
accepted if and only if they can be cut and exactly one item is a path. They ask then for this path,
the last language, the last position or zero, the last height, and the kinds of nodes if the flag is
there. So rearranging items among which no option stands twice leaves the result as it is. -/
theorem reads_items_in_any_order :
    (∀ items items', written items = written items' → items = items') ∧
    (∀ items items' option value rest, option ∈ valueOptions →
      written items' = written items ++ option :: value :: rest →
      ∃ item later, item.words = [option, value] ∧ items' = items ++ item :: later) ∧
    (∀ args, (∃ a, read args = .ok a) ↔ ∃ items path, written items = args ∧ paths items = [path]) ∧
    (∀ args a, read args = .ok a ↔ ∃ items, written items = args ∧ AskFor items a) ∧
    ∀ items items' a, (languages items).length ≤ 1 → (scrolls items).length ≤ 1 →
      (heights items).length ≤ 1 → items.Perm items' → read (written items) = .ok a →
      read (written items') = .ok a := by
  refine ⟨fun items items' h => written_inj h, ?_, fun args => ?_, fun args a => read_eq_ok_iff, ?_⟩
  · intro items items' option value rest hoption h
    exact exists_item_of_option hoption h
  · constructor
    · rintro ⟨a, hread⟩
      obtain ⟨items, hwritten, hask⟩ := read_eq_ok_iff.mp hread
      exact ⟨items, a.path, hwritten, hask.path⟩
    · rintro ⟨items, path, hwritten, hpath⟩
      classical
      let a : Arguments := ⟨path, (languages items).getLast?, (scrolls items).getLast?.getD 0,
        (heights items).getLast?, decide (.listKinds ∈ items)⟩
      exact ⟨a, read_eq_ok_iff.mpr ⟨items, hwritten, hpath, rfl, rfl, rfl, decide_eq_true_iff⟩⟩
  · intro items items' a hlanguages hscrolls hheights hperm hread
    obtain ⟨cut, hwritten, hask⟩ := read_eq_ok_iff.mp hread
    obtain rfl := written_inj hwritten
    exact read_eq_ok_iff.mpr ⟨items', rfl, hask.perm hperm hlanguages hscrolls hheights⟩

/-- Three options in front of the path, and the same items in another order. A name of an option is
taken as the value of another one, and is no language. -/
theorem reads_items_in_any_order_of_options :
    let language : Item := .language "py".toList .python (by decide)
    let scroll : Item := .scroll "32".toList 32 (by decide +kernel)
    let height : Item := .height "120.5".toList 120.5 (by decide +kernel)
    let path : Item := .path "a.txt".toList (by decide)
    let a : Arguments := ⟨"a.txt".toList, some .python, 32, some 120.5, false⟩
    AskFor [language, scroll, height, path] a ∧
      [language, scroll, height, path].Perm [path, height, language, scroll] ∧
      read (written [path, height, language, scroll]) = .ok a ∧
      ∀ items, written items ≠ written [path] ++ ["--lang".toList, "--list-kinds".toList] := by
  intro language scroll height path a
  obtain ⟨_, htaken, _, hread, hperm⟩ := reads_items_in_any_order
  have hask : AskFor [language, scroll, height, path] a :=
    ⟨rfl, rfl, rfl, rfl, by simp [a, language, scroll, height, path]⟩
  have hswap : ([language, scroll] ++ [height, path]).Perm ([height, path] ++ [language, scroll]) :=
    List.perm_append_comm
  have hrearranged : [language, scroll, height, path].Perm [path, height, language, scroll] :=
    hswap.trans (.swap path height _)
  refine ⟨hask, hrearranged, ?_, fun items hitems => ?_⟩
  · refine hperm _ _ _ (by decide) (by decide) (by decide) hrearranged ?_
    exact (hread _ _).mpr ⟨_, rfl, hask⟩
  · obtain ⟨item, later, hitem, _⟩ := htaken [path] items _ _ [] (by decide) hitems
    cases item with
    | language name l named =>
      obtain rfl : name = "--list-kinds".toList := by simpa [Item.words] using hitem
      have hnone : Language.ofName? "--list-kinds".toList = none := by decide
      rw [hnone] at named
      contradiction
    | scroll | height | listKinds | path => simp [Item.words] at hitem

end Retint.Arguments
