import TapeTutor.Proofs.Drawing

/-!
# The statistics of a history are exact

One pass over the records of a history fills two maps, one from the characters of the instructions
and one from the numbers of the cells.  Both are tallies, so they count exactly; what is left is to
read the lines of the statistics off them.

* The characters that are counted are those of instructions, and no two instructions have the same
  one.  So the first map tells how often each instruction occurs (`count_commands`), and its keys,
  in the order of the map, are the instructions of the history in the order of their characters
  (`map_toChar_usage`).
* The second map is ranked, and the cells that are listed are the first five of the ranking.

A line has the count in a field of its own, blanks in front, and one block for every ten behind it
(`countRow`).
-/

namespace TapeTutor

namespace Viewer

open Text Settings

/-! ## Rows -/

/-- A number at the end of a field that is at least `width` characters wide. -/
def padded (width n : Nat) : List Char :=
  List.replicate (width - (toString n).length) ' ' ++ (toString n).toList

/-- A row of the statistics: what is counted, the count, and a block for every ten, at most fifty. -/
def countRow (label : List Char) (count : Nat) : List Char :=
  "  ".toList ++ label ++ ": ".toList ++ padded 6 count ++ " ".toList ++
    List.replicate (min (count / 10) 50) '█'

theorem toList_alignRight (width n : Nat) :
    (alignRight width (toString n)).toList = padded width n := by
  rw [alignRight, String.toList_append, toList_blanks, padded]

theorem toList_bar (count : Nat) :
    (bar count).toList = List.replicate (min (count / 10) 50) '█' := by
  have hblock : "█".toList = ['█'] := by decide
  rw [bar, toList_repeated, hblock, List.flatten_replicate_singleton]

theorem toList_render_countLine (label : String) (count : Nat) (color : Color) :
    (Line.render false (countLine label count color)).toList = countRow label.toList count := by
  simp only [Line.toList_render_false, countLine, List.flatMap_cons, List.flatMap_nil, Span.text,
    String.toList_append, toList_alignRight, toList_bar, countRow, List.append_nil]

/-! ## Instructions and cells of a history -/

variable (history : Array Record)

/-- How often an instruction occurs in a history. -/
def uses (i : Instruction) : Nat := history.countP fun r => r.instruction = i

/-- How often a cell is visited in a history. -/
def visits (c : Nat) : Nat := history.countP fun r => r.pointer = c

/-- The characters of the instructions of a history. -/
def commands : List Char := history.toList.map fun r => r.instruction.toChar

/-- An instruction is counted by its character. -/
theorem count_commands (i : Instruction) : (commands history).count i.toChar = uses history i := by
  rw [uses, ← Array.countP_toList, commands, List.count, List.countP_map]
  refine List.countP_congr fun r _ => ?_
  simp [Instruction.toChar_injective.eq_iff]

theorem count_pointers (c : Nat) :
    (history.toList.map Record.pointer).count c = visits history c := by
  rw [visits, ← Array.countP_toList, List.count, List.countP_map]
  rfl

/-- The instructions of a history, in the order of their characters. -/
def usage : List Instruction :=
  (Tally.ofList (commands history)).keys.filterMap Instruction.ofChar?

/-- What is counted are instructions. -/
theorem map_toChar_usage :
    (usage history).map Instruction.toChar = (Tally.ofList (commands history)).keys := by
  have hread : ∀ c ∈ (Tally.ofList (commands history)).keys,
      (Instruction.ofChar? c).map Instruction.toChar = some c := by
    intro c hc
    obtain ⟨r, _, rfl⟩ := List.mem_map.mp (Tally.mem_keys_ofList.mp hc)
    rw [Instruction.ofChar?_toChar, Option.map_some]
  rw [usage, List.map_filterMap, List.filterMap_congr hread, List.filterMap_some]

theorem mem_usage {i : Instruction} : i ∈ usage history ↔ ∃ r ∈ history, r.instruction = i := by
  rw [← List.mem_map_of_injective Instruction.toChar_injective, map_toChar_usage,
    Tally.mem_keys_ofList, commands, List.mem_map]
  simp only [Array.mem_toList_iff, Instruction.toChar_injective.eq_iff]

theorem pairwise_usage : (usage history).Pairwise fun i j => i.toChar < j.toChar := by
  have hordered := @Std.TreeMap.ordered_keys _ _ _ (Tally.ofList (commands history)) _
  rw [← map_toChar_usage, List.pairwise_map] at hordered
  exact hordered.imp compareOfLessAndEq_eq_lt.mp

/-- **Every record counts once.** -/
theorem sum_uses : ((usage history).map (uses history)).sum = history.size := by
  have hcounts : (usage history).map (uses history) =
      (Tally.ofList (commands history)).keys.map fun c => (commands history).count c := by
    rw [← map_toChar_usage, List.map_map]
    exact List.map_congr_left fun i _ => (count_commands history i).symm
  rw [hcounts, Tally.sum_count_keys, commands, List.length_map, Array.length_toList]

theorem usageLines_eq (v : Viewer) :
    v.usageLines history = (usage history).map fun i =>
      countLine (String.singleton i.toChar) (uses history i) v.palette.success := by
  have hentries := Tally.toList_ofList (commands history)
  rw [← map_toChar_usage, List.map_map] at hentries
  rw [usageLines, ← commands, hentries, List.map_map]
  refine List.map_congr_left fun i _ => ?_
  simp only [Function.comp_apply, count_commands]

/-! ## The lines of the statistics -/

/-- The lines of the statistics. -/
theorem splitLines_stats {v : Viewer} (hcolor : v.color = false) :
    let pointers := history.toList.map Record.pointer
    splitLines (v.stats history).toList =
      ["Execution Statistics:".toList, "Command usage:".toList] ++
        (usage history).map (fun i => countRow [i.toChar] (uses history i)) ++
        ["Most accessed cells:".toList] ++
        ((Tally.ranking pointers).take 5).map
          (fun c => countRow ("Cell ".toList ++ padded 3 c) (visits history c)) ++
        [("Total steps: " ++ toString history.size).toList,
          ("Unique cells accessed: " ++ toString pointers.toFinset.card).toList, []] := by
  intro pointers
  have hlines := splitLines_renderLines fun l hl => (v.drawn_statsLines history l hl).oneLine
  rw [stats, display, hcolor, hlines, statsLines, Tally.size_ofList, Tally.ranked_ofList,
    ← List.map_take, usageLines_eq]
  simp only [List.map_append, List.map_cons, List.map_nil, List.map_map, Function.comp_def,
    Line.toList_render_heading, toList_render_countLine, Line.toList_render_plain, count_pointers,
    String.toList_append, toList_alignRight, String.toList_singleton, List.append_assoc]
  rfl

/-- **Statistics are exact, and the busiest cells are the busiest.**  Let a history be shown without
colour.

* The instructions that occur in the history are listed, each once and in the order of their
  characters, with the number of their records.  These numbers add up to the total.
* Five cells are listed, or all of them if fewer were visited, each with the number of its records.
  A cell is busier than those listed behind it, and than those visited and not listed. -/
theorem stats_exact (v : Viewer) (history : Array Record) (hcolor : v.color = false) :
    let visited := (history.toList.map Record.pointer).toFinset
    ∃ (instructions : List Instruction) (cells : List Nat),
      splitLines (v.stats history).toList =
        ["Execution Statistics:".toList, "Command usage:".toList] ++
          instructions.map (fun i => countRow [i.toChar] (uses history i)) ++
          ["Most accessed cells:".toList] ++
          cells.map
            (fun c => countRow ("Cell ".toList ++ padded 3 c) (visits history c)) ++
          [("Total steps: " ++ toString history.size).toList,
            ("Unique cells accessed: " ++ toString visited.card).toList, []] ∧
      (∀ i, i ∈ instructions ↔ ∃ r ∈ history, r.instruction = i) ∧
      (instructions.Pairwise fun i j => i.toChar < j.toChar) ∧
      (instructions.map (uses history)).sum = history.size ∧
      cells.length = min 5 visited.card ∧
      (∀ c ∈ cells, c ∈ visited) ∧
      cells.Pairwise (Busier (visits history)) ∧
      ∀ c ∈ cells, ∀ d ∈ visited, d ∉ cells → Busier (visits history) c d := by
  intro visited
  let pointers := history.toList.map Record.pointer
  have hsorted : (Tally.ranking pointers).Pairwise (Busier (visits history)) := by
    have hcount : pointers.count = visits history := funext (count_pointers history)
    exact hcount ▸ Tally.pairwise_ranking pointers
  have hcut := List.take_append_drop 5 (Tally.ranking pointers)
  rw [← hcut, List.pairwise_append] at hsorted
  obtain ⟨hlisted, -, hacross⟩ := hsorted
  refine ⟨usage history, (Tally.ranking pointers).take 5, splitLines_stats history hcolor,
    fun i => mem_usage history, pairwise_usage history, sum_uses history, ?_, ?_, hlisted, ?_⟩
  · rw [List.length_take, Tally.length_ranking]
  · intro c hc
    exact List.mem_toFinset.mpr (Tally.mem_ranking.mp (List.mem_of_mem_take hc))
  · intro c hc d hd hout
    have hd : d ∈ Tally.ranking pointers := Tally.mem_ranking.mpr (List.mem_toFinset.mp hd)
    rw [← hcut, List.mem_append] at hd
    exact hacross c hc d (hd.resolve_left hout)

/-- Six cells of which two are visited twice: the sixth is not listed. -/
theorem stats_exact_ties :
    let history : Array Record := #[⟨.increment, 4, 0, 0⟩, ⟨.right, 0, 0, 1⟩, ⟨.increment, 4, 1, 2⟩,
      ⟨.output, 9, 0, 3⟩, ⟨.right, 2, 7, 4⟩, ⟨.left, 1, 0, 5⟩, ⟨.input, 3, 0, 6⟩, ⟨.right, 1, 0, 7⟩]
    ({} : Viewer).color = false ∧
    ∃ cells : List Nat, cells.length = 5 ∧ cells.Pairwise (Busier (visits history)) ∧
      (∀ c ∈ cells, ∀ d ∈ [0, 1, 2, 3, 4, 9], d ∉ cells → Busier (visits history) c d) ∧
      "Total steps: 8".toList ∈ splitLines (Viewer.stats {} history).toList := by
  intro history
  obtain ⟨_, cells, htext, -, -, -, hlength, -, hsorted, hrest⟩ := stats_exact {} history rfl
  refine ⟨rfl, cells, hlength, hsorted, ?_, ?_⟩
  · intro c hc d hd
    exact hrest c hc d (by revert d; decide)
  · rw [htext]
    have htotal : "Total steps: 8" = "Total steps: " ++ toString history.size := by decide
    rw [htotal]
    exact List.mem_append_right _ List.mem_cons_self

end Viewer

end TapeTutor
