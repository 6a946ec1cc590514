/-
  TexEngine.Proofs.Input.Depth

  How many streams are open.  The input is changed in four ways only: a token is read,
  tokens are put back, a text or a file is opened, and the innermost file is told to end.
  Opening is the only change that adds a stream to those that are there; if it takes place
  only while fewer streams than a limit are open, the limit is never exceeded.

  Putting tokens back opens a stream, too, if there is none to hold them, and this is not
  guarded by any check.  So the limit has to allow for one stream.
-/
import TexEngine.Input.Source

namespace TexEngine.Source

variable {src src' src'' : Source} {limit : Nat} {path path' : List Source}

/-! ## The number of streams -/

theorem depth_nextFrom_le (lex : Lexicon) (src : Source) (closed : List StreamId)
    (streams : List Stream) :
    (src.nextFrom lex closed streams).source.depth ≤ streams.length := by
  fun_induction nextFrom lex src closed streams with
  | case1 closed => exact Nat.le_refl _
  | case2 closed s rest t ts hpushed => exact Nat.le_refl _
  | case3 closed s rest hpushed t s' hread => exact Nat.le_refl _
  | case4 closed s rest hpushed f s' hread src' => exact Nat.le_refl _
  -- The stream has nothing more to give, and it is removed.
  | case5 closed s rest hpushed s' hread ih => exact Nat.le_succ_of_le ih

theorem depth_next_le (lex : Lexicon) (src : Source) : (src.next lex).source.depth ≤ src.depth :=
  depth_nextFrom_le lex src [] src.streams

theorem depth_push_le (src : Source) (ts : TokenList) : (src.push ts).depth ≤ max 1 src.depth := by
  unfold push depth
  split
  · exact Nat.le_max_right ..
  · exact Nat.le_max_left ..
  · rename_i s rest _ hstreams
    rw [hstreams]
    exact Nat.le_max_right ..

theorem depth_endInput (src : Source) : src.endInput.depth = src.depth := by
  have hmark := congrArg List.length (map_mark (f := Stream.pushed) (fun _ => rfl) src.streams)
  rwa [List.length_map, List.length_map] at hmark

/-- A file that is opened is one more stream. -/
theorem depth_includeFile {files : FileTree} {fileName : String} {r : Reader}
    (h : src.includeFile files fileName = .ok (src', r)) : src'.depth = src.depth + 1 := by
  obtain ⟨-, baseDir, rfl⟩ := exists_of_includeFile h
  rfl

/-! ## Changes -/

/-- The changes of an input of which at most `limit` streams may be open. -/
inductive Change (limit : Nat) (src : Source) : Source → Prop where
  | next (lex : Lexicon) : Change limit src (src.next lex).source
  | push (ts : TokenList) : Change limit src (src.push ts)
  | openText (text name : String) (hdepth : src.depth < limit) :
      Change limit src (src.pushText text name)
  | openFile {files : FileTree} {fileName : String} {src' : Source} {r : Reader}
      (hdepth : src.depth < limit) (h : src.includeFile files fileName = .ok (src', r)) :
      Change limit src src'
  | endInput : Change limit src src.endInput

/-- A change keeps the number of streams within the limit. -/
theorem Change.depth_le (h : Change limit src src') (hlimit : 0 < limit)
    (hdepth : src.depth ≤ limit) : src'.depth ≤ limit := by
  cases h with
  | next lex => exact Nat.le_trans (depth_next_le lex src) hdepth
  | push ts => exact Nat.le_trans (depth_push_le src ts) (Nat.max_le.mpr ⟨hlimit, hdepth⟩)
  | openText text name hopen => exact hopen
  | openFile hopen hinclude =>
    rw [depth_includeFile hinclude]
    exact hopen
  | endInput =>
    rw [depth_endInput]
    exact hdepth

/-- The input goes from one state to another by changes, and `path` are the states behind
    each of them. -/
inductive Passes (limit : Nat) (src : Source) : List Source → Source → Prop where
  | refl : Passes limit src [] src
  | step {path : List Source} {src' src'' : Source} (h : Passes limit src path src')
      (hchange : Change limit src' src'') : Passes limit src (path ++ [src'']) src''

theorem Passes.of_change (h : Change limit src src') : Passes limit src [src'] src' :=
  .step .refl h

theorem Passes.trans (h : Passes limit src path src') (h' : Passes limit src' path' src'') :
    Passes limit src (path ++ path') src'' := by
  induction h' with
  | refl => rwa [List.append_nil]
  | step _ hchange ih =>
    rw [← List.append_assoc]
    exact ih.step hchange

/-- All the way, the number of streams is within the limit. -/
theorem Passes.depth_le (h : Passes limit src path src') (hlimit : 0 < limit)
    (hdepth : src.depth ≤ limit) : src'.depth ≤ limit ∧ ∀ s ∈ path, s.depth ≤ limit := by
  induction h with
  | refl => exact ⟨hdepth, fun _ hs => nomatch hs⟩
  | step _ hchange ih =>
    have hlast := hchange.depth_le hlimit ih.1
    refine ⟨hlast, fun s hs => ?_⟩
    rcases List.mem_append.mp hs with hs | hs
    · exact ih.2 s hs
    · rwa [List.mem_singleton.mp hs]

end TexEngine.Source
