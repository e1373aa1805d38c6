import Retint.CommandLine.Report
import Retint.Proofs.Style.Hexadecimal
import Retint.Proofs.Text.Quoting

/-!
# What the printed lines tell

A line of the output tells a range, a style and a snippet, and nothing else of the source goes into
it. No line has a line feed in it, for the only part that comes from the source is quoted. What a
line tells can be read off it: the numbers end where no digit follows, a colour has seven
characters, and the words for how a span is drawn begin with a letter where the snippet begins with
a quote.
-/

namespace Retint.Report

/-- What the line of a span tells. -/
structure Entry where
  /-- The range and the style. -/
  span : Span
  /-- The first characters in the range. -/
  snippet : Text
  deriving DecidableEq

namespace Entry

/-- The entry of a span of a source. -/
def ofSpan (source : Text) (s : Span) : Entry := ⟨s, Report.snippet source s⟩

/-- The line that tells an entry. -/
def line (e : Entry) : Text :=
  Text.ofNat e.span.start ++ "..".toList ++ Text.ofNat e.span.stop ++
    ' ' :: e.span.style.foreground.toHex ++ flags e.span.style ++ ' ' :: Text.quoted e.snippet

end Entry

/-- The number at the beginning of a text, and what follows it. -/
def readNumber (t : Text) : Nat × Text :=
  (Text.digitsValue (t.takeWhile Char.isDigit), t.dropWhile Char.isDigit)

/-- Whether a text begins with a word, and what follows the word if it does. -/
def readFlag (word t : Text) : Bool × Text :=
  match word.isPrefixOf? t with
  | some rest => (true, rest)
  | none => (false, t)

/-- The entry that a line tells. -/
def Entry.read? (t : Text) : Option Entry := do
  let (start, t) := readNumber t
  let t ← "..".toList.isPrefixOf? t
  let (stop, t) := readNumber t
  let t ← " ".toList.isPrefixOf? t
  let foreground ← Rgb.ofHex? (t.take 7)
  let (bold, t) := readFlag " bold".toList (t.drop 7)
  let (italic, t) := readFlag " italic".toList t
  let t ← " \"".toList.isPrefixOf? t
  let snippet ← Text.unquote? .plain t
  return ⟨⟨⟨foreground, bold, italic⟩, start, stop⟩, snippet⟩

/-- The entries that a text of lines tells, each of which has its break. -/
def readAll? (t : Text) : Option (List Entry) := (t.splitOn '\n').dropLast.mapM Entry.read?

/-! ### The parts of a line -/

/-- A number is read up to a character that is no digit. -/
theorem readNumber_ofNat (n : Nat) {c : Char} (hc : c.isDigit = false) (rest : Text) :
    readNumber (Text.ofNat n ++ c :: rest) = (n, c :: rest) := by
  have hdigits : ∀ d ∈ Text.ofNat n, d.isDigit = true := fun d hd =>
    Nat.isDigit_of_mem_toDigits (by decide) (by decide) hd
  have hvalue : Text.digitsValue (Text.ofNat n) = n := by
    rw [Text.digitsValue, ← Nat.ofDigitChars_eq_foldl]
    exact Nat.ofDigitChars_ten_toDigits
  have hstop : ¬ c.isDigit = true := by simp [hc]
  rw [readNumber, List.takeWhile_append_of_pos hdigits, List.dropWhile_append_of_pos hdigits,
    List.takeWhile_cons_of_neg hstop, List.dropWhile_cons_of_neg hstop, List.append_nil, hvalue]

/-- A colour that is written is read back. -/
theorem ofHex?_toHex (c : Rgb) : Rgb.ofHex? c.toHex = some c := by
  obtain ⟨digits, hspelling, hwritten⟩ := Rgb.isSpelling_toHex c
  obtain ⟨c', hread, hwritten'⟩ := hspelling.exists_ofHex?
  rwa [Rgb.toHex_inj.mp (hwritten'.trans hwritten.symm)] at hread

/-- The words of a style are read back in front of a quote. -/
theorem readFlag_flags (s : Style) (rest : Text) : ∃ t,
    readFlag " bold".toList (flags s ++ ' ' :: '"' :: rest) = (s.bold, t) ∧
      readFlag " italic".toList t = (s.italic, ' ' :: '"' :: rest) := by
  obtain ⟨foreground, bold, italic⟩ := s
  cases bold <;> cases italic <;> exact ⟨_, rfl, rfl⟩

/-- A line is read as the entry that it tells. -/
theorem Entry.read?_line (e : Entry) : read? e.line = some e := by
  obtain ⟨⟨style, start, stop⟩, snippet⟩ := e
  let closing := snippet.flatMap Text.quotedChar ++ ['"']
  let afterColour := flags style ++ ' ' :: '"' :: closing
  let afterStop := style.foreground.toHex ++ afterColour
  let afterStart := Text.ofNat stop ++ ' ' :: afterStop
  have hline : Entry.line ⟨⟨style, start, stop⟩, snippet⟩ =
      Text.ofNat start ++ '.' :: '.' :: afterStart := by
    simp [Entry.line, Text.quoted, afterStart, afterStop, afterColour, closing]
  have hstart := readNumber_ofNat start (show '.'.isDigit = false from rfl) ('.' :: afterStart)
  have hdots : "..".toList.isPrefixOf? ('.' :: '.' :: afterStart) = some afterStart := rfl
  have hstop : readNumber afterStart = (stop, ' ' :: afterStop) :=
    readNumber_ofNat stop rfl afterStop
  have hblank : " ".toList.isPrefixOf? (' ' :: afterStop) = some afterStop := rfl
  have hcolour : Rgb.ofHex? (afterStop.take 7) = some style.foreground := ofHex?_toHex _
  have hrest : afterStop.drop 7 = flags style ++ ' ' :: '"' :: closing := rfl
  obtain ⟨t, hbold, hitalic⟩ := readFlag_flags style closing
  have hquote : " \"".toList.isPrefixOf? (' ' :: '"' :: closing) = some closing := rfl
  have hsnippet : Text.unquote? .plain closing = some snippet := Text.unquote?_quoted snippet
  simp only [read?, hline, hstart, hdots, hstop, hblank, hcolour, hrest, hbold, hitalic, hquote,
    hsnippet, Option.bind_eq_bind, Option.bind_some, Option.pure_def]

/-! ### The lines of the output -/

/-- There is no line feed in the line of an entry. -/
theorem Entry.lineFeed_notMem_line (e : Entry) : '\n' ∉ e.line := by
  have hnumber : ∀ n, '\n' ∉ Text.ofNat n := by
    intro n hmem
    have hdigit : '\n'.isDigit = true := Nat.isDigit_of_mem_toDigits (by decide) (by decide) hmem
    exact absurd hdigit (by decide)
  have hpair : ∀ byte, '\n' ∉ Rgb.hexPair byte := fun byte hmem =>
    absurd ((Rgb.hexPair_spec byte).1 _ hmem) (by decide)
  have hflags : '\n' ∉ flags e.span.style := by
    unfold flags
    split <;> split <;> decide
  simp [Entry.line, Rgb.toHex, hnumber, hpair, hflags, Text.lineFeed_notMem_quoted]

/-- Cut at its line feeds, the output is the lines of the spans and nothing behind the last one. -/
theorem splitOn_print (source : Text) (spans : List Span) :
    (print source spans).splitOn '\n' = spans.map (line source) ++ [[]] := by
  induction spans with
  | nil => rfl
  | cons s spans ih =>
    have hfeed : '\n' ∉ line source s := (Entry.ofSpan source s).lineFeed_notMem_line
    rw [print, List.flatMap_cons, List.append_assoc, List.singleton_append,
      List.splitOn_append_cons_self_of_not_mem hfeed, List.map_cons, List.cons_append]
    exact congrArg _ ih

/-- The entries of the spans are read off the output. -/
theorem readAll?_print (source : Text) (spans : List Span) :
    readAll? (print source spans) = some (spans.map (Entry.ofSpan source)) := by
  rw [readAll?, splitOn_print, List.dropLast_concat, Rgb.mapM_eq_some_iff, List.map_map,
    List.map_map]
  refine List.map_congr_left fun s _ => ?_
  exact Entry.read?_line (Entry.ofSpan source s)

/-- **The output is one unambiguous line for each span.** Cut at its line feeds it is the lines of
the spans in their order. From each line the range, the colour, both flags and the snippet are read,
where the snippet is made of the first forty characters of the range, or of none if the source has
no such range. So the entries of all spans are read off the whole output, and two outputs are the
same exactly if they tell the same entries. -/
theorem lines_tell_entries (source : Text) (spans : List Span) :
    (print source spans).splitOn '\n' = spans.map (line source) ++ [[]] ∧
      (∀ s, Entry.read? (line source s) = some (Entry.ofSpan source s)) ∧
      (∀ s, Entry.ofSpan source s = ⟨s,
        match source.slice? s.start s.stop with
        | some part => part.take 40
        | none => []⟩) ∧
      readAll? (print source spans) = some (spans.map (Entry.ofSpan source)) ∧
      ∀ source' spans', print source spans = print source' spans' ↔
        spans.map (Entry.ofSpan source) = spans'.map (Entry.ofSpan source') := by
  have hprint : ∀ source spans, print source spans =
      (spans.map (Entry.ofSpan source)).flatMap fun e => e.line ++ ['\n'] := by
    intro source spans
    rw [List.flatMap_map]
    rfl
  refine ⟨splitOn_print source spans, fun s => ?_, fun s => ?_, readAll?_print source spans,
    fun source' spans' => ⟨fun hsame => ?_, fun hsame => ?_⟩⟩
  · exact Entry.read?_line (Entry.ofSpan source s)
  · rw [Entry.ofSpan, snippet]
    cases source.slice? s.start s.stop <;> rfl
  · have hread := readAll?_print source spans
    rw [hsame, readAll?_print source' spans'] at hread
    exact (Option.some.inj hread).symm
  · rw [hprint, hprint, hsame]

/-- A span with a line feed and a quote in it, and one that reaches beyond the end. -/
example : print "a\n\"".toList
    [⟨⟨⟨0x56, 0x9C, 0xD6⟩, true, false⟩, 0, 3⟩, ⟨⟨⟨0x6A, 0x99, 0x55⟩, false, true⟩, 2, 9⟩] =
    "0..3 #569CD6 bold \"a\\n\\\"\"\n2..9 #6A9955 italic \"\"\n".toList := by
  decide +kernel

end Retint.Report
