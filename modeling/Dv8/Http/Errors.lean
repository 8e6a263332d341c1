import Dv8.Http.Pause

namespace Dv8.Http

open Dv8.Lib

/-!
# `onError` of `HTTPParser`

The same `http_parser` is driven from two places, `HTTPParser::Execute` and the callback of the
socket plugin.  Behind `http_parser_execute`, `Execute` takes every read that was not taken whole
for an error, unless the parser is paused; the plugin never calls `onError`.

* `HTTPParser.parse` — `http_parser_execute`, which does nothing for a parser that is
  paused or has failed;
* `read_eq_drive` — a read of a running parser is `parse` and what follows it;
* `reportsExactly_iff` — both paths report errors, and only these, exactly on the reads that end
  paused, or whole and without an error.
-/

variable {σ : Type*}

/-- `HPE_OK` -/
def HPE_OK : Nat := 0

/-- `HPE_PAUSED` -/
def HPE_PAUSED : Nat := 31

/-- What `http_parser_execute` comes to: the parser and the context, the value it returns, and
    `http_errno`. -/
structure Parse (σ : Type*) where
  parser : σ
  progress : Progress
  np : Nat
  errno : Nat
  deriving DecidableEq

/-- `http_parser_execute`.  `paused` says that JavaScript has left the parser paused before. -/
def HTTPParser.parse (p : HttpParser σ) (pauses : List JsCall → Bool) (s : HTTPParser σ)
    (paused : Bool) (data : List UInt8) : Option (Parse σ) :=
  -- `http_parser_execute` returns at once when `http_errno` is set
  if paused then some ⟨s.parser, s.progress, 0, HPE_PAUSED⟩
  else if p.errno s.parser ≠ HPE_OK then some ⟨s.parser, s.progress, 0, p.errno s.parser⟩
  else
    let ex := p.execute s.parser data
    (firstPause s.callbacks pauses s.progress ex.made).map fun
      | (g, some m) => ⟨m.parser, g, m.pos, HPE_PAUSED⟩
      | (g, none) => ⟨ex.parser, g, ex.np, p.errno ex.parser⟩

/-- The parser behind `http_parser_execute`. -/
def HTTPParser.parsed (s : HTTPParser σ) (x : Parse σ) : HTTPParser σ :=
  { s with parser := x.parser, progress := x.progress }

/-- `context->lastByte`, from where `http_parser_execute` has stopped. -/
def HTTPParser.keepByte (s : HTTPParser σ) (data : List UInt8) (np : Nat) : HTTPParser σ :=
  { s with lastByte := (data[np]?).getD s.lastByte }

/-- `HTTPParser::Execute` behind `http_parser_execute`. -/
def HTTPParser.execute (s : HTTPParser σ) (data : List UInt8) (x : Parse σ) : HTTPParser σ :=
  if x.np ≠ data.length then
    if x.errno = HPE_PAUSED then (s.parsed x).keepByte data x.np
    else { s.parsed x with errors := s.errors ++ [x.errno] }
  else s.parsed x

/-- `on_plugin_read_data` behind `http_parser_execute`, up to the next plugin. -/
def HTTPParser.onPluginReadData (s : HTTPParser σ) (data : List UInt8) (x : Parse σ) :
    HTTPParser σ :=
  if x.np ≠ data.length ∧ x.errno = HPE_PAUSED then (s.parsed x).keepByte data x.np
  else s.parsed x

/-- The calls of `onError` that are due to `http_errno`. -/
def due (errno : Nat) : List Nat := if errno = HPE_OK ∨ errno = HPE_PAUSED then [] else [errno]

/-- A chunk makes the same calls of JavaScript on both paths, and on each `onError` is called once
    when `http_parser` stops in an error and not otherwise. -/
def ReportsExactly (p : HttpParser σ) (pauses : List JsCall → Bool) (s : HTTPParser σ)
    (paused : Bool) (data : List UInt8) : Prop :=
  ∀ x, s.parse p pauses paused data = some x →
    (s.execute data x).progress.seen = (s.onPluginReadData data x).progress.seen ∧
    (s.execute data x).errors = (s.onPluginReadData data x).errors ∧
    (s.execute data x).errors = s.errors ++ due x.errno ∧
    (s.onPluginReadData data x).errors = s.errors ++ due x.errno

/-- `http_parser` is paused behind the chunk, or has taken it whole and without an error. -/
def PausedOrWhole (p : HttpParser σ) (pauses : List JsCall → Bool) (s : HTTPParser σ)
    (paused : Bool) (data : List UInt8) : Prop :=
  ∀ x, s.parse p pauses paused data = some x →
    x.errno = HPE_PAUSED ∨ (x.errno = HPE_OK ∧ x.np = data.length)

variable {p : HttpParser σ} {pauses : List JsCall → Bool}

/-! ### What follows `http_parser_execute` -/

/-- What follows on the path of a read. -/
def HTTPParser.drive (s : HTTPParser σ) (r : Read) (x : Parse σ) : HTTPParser σ :=
  match r with
  | .execute data => s.execute data x
  | .plugin data => s.onPluginReadData data x

/-- **A read of a running parser** is `http_parser_execute` and what follows it on its path. -/
theorem read_eq_drive {s : HTTPParser σ} (hrunning : p.errno s.parser = HPE_OK)
    (herrno : ∀ t, p.errno t ≠ HPE_PAUSED) (r : Read) :
    (s.read p pauses r).map Prod.fst = (s.parse p pauses false r.data).map (s.drive r) := by
  unfold HTTPParser.read HTTPParser.parse
  rw [if_neg Bool.false_ne_true, if_neg (not_not.mpr hrunning), Option.map_map, Option.map_map]
  congr 1
  funext ⟨g, stop⟩
  cases stop with
  | none =>
    cases r with
    | execute data =>
      simp only [Function.comp_apply, HTTPParser.executed, HTTPParser.drive, HTTPParser.execute,
        HTTPParser.parsed, Read.data, Bool.false_eq_true, if_false, herrno]
    | plugin data =>
      simp only [Function.comp_apply, HTTPParser.executed, HTTPParser.drive,
        HTTPParser.onPluginReadData, HTTPParser.parsed, Read.data, Bool.false_eq_true, if_false,
        herrno, and_false, ite_self]
  | some m =>
    cases r with
    | execute data =>
      simp only [Function.comp_apply, HTTPParser.executed, HTTPParser.drive, HTTPParser.execute,
        HTTPParser.parsed, HTTPParser.keepByte, Read.data, if_true]
    | plugin data =>
      simp only [Function.comp_apply, HTTPParser.executed, HTTPParser.drive,
        HTTPParser.onPluginReadData, HTTPParser.parsed, HTTPParser.keepByte, Read.data, if_true,
        and_true]

/-- The calls of the other callbacks are those of `http_parser_execute`. -/
theorem drive_progress (s : HTTPParser σ) (r : Read) (x : Parse σ) :
    (s.drive r x).progress = x.progress := by
  cases r with
  | execute data =>
    simp only [HTTPParser.drive, HTTPParser.execute]
    split_ifs <;> rfl
  | plugin data =>
    simp only [HTTPParser.drive, HTTPParser.onPluginReadData]
    split_ifs <;> rfl

/-- `Execute` calls `onError` for what it has not taken whole, unless it is paused. -/
theorem execute_errors (s : HTTPParser σ) (data : List UInt8) (x : Parse σ) :
    (s.execute data x).errors = s.errors ++
      if x.np ≠ data.length ∧ x.errno ≠ HPE_PAUSED then [x.errno] else [] := by
  unfold HTTPParser.execute
  by_cases hnp : x.np = data.length
  · simp [hnp, HTTPParser.parsed]
  · by_cases hpaused : x.errno = HPE_PAUSED
    · simp [hnp, hpaused, HTTPParser.parsed, HTTPParser.keepByte]
    · simp [hnp, hpaused]

/-- The plugin calls `onError` for nothing. -/
theorem onPluginReadData_errors (s : HTTPParser σ) (data : List UInt8) (x : Parse σ) :
    (s.onPluginReadData data x).errors = s.errors := by
  unfold HTTPParser.onPluginReadData
  split_ifs <;> rfl

/-- `Execute` is exact when what `http_parser` does not take whole it refuses. -/
theorem execute_exact_iff (s : HTTPParser σ) (data : List UInt8) (x : Parse σ) :
    (s.execute data x).errors = s.errors ++ due x.errno ↔
      x.errno = HPE_PAUSED ∨ (x.errno = HPE_OK ↔ x.np = data.length) := by
  rw [execute_errors, List.append_cancel_left_eq, due]
  by_cases hpaused : x.errno = HPE_PAUSED
  · simp [hpaused]
  · by_cases hok : x.errno = HPE_OK <;> by_cases hnp : x.np = data.length <;> simp_all

/-- The plugin is exact when there is no error. -/
theorem plugin_exact_iff (s : HTTPParser σ) (data : List UInt8) (x : Parse σ) :
    (s.onPluginReadData data x).errors = s.errors ++ due x.errno ↔
      x.errno = HPE_PAUSED ∨ x.errno = HPE_OK := by
  rw [onPluginReadData_errors, eq_comm, List.append_right_eq_self, due]
  split_ifs with h
  · exact iff_of_true rfl h.symm
  · exact iff_of_false (fun hnil => hnil) fun h' => h h'.symm

/-- **Errors are reported exactly on both paths** by the chunks behind which `http_parser` is
    paused, and by those it takes whole without an error. -/
theorem reportsExactly_iff (p : HttpParser σ) (pauses : List JsCall → Bool) (s : HTTPParser σ)
    (paused : Bool) (data : List UInt8) :
    ReportsExactly p pauses s paused data ↔ PausedOrWhole p pauses s paused data := by
  refine forall_congr' fun x => imp_congr_right fun _ => ?_
  have hseen : (s.execute data x).progress.seen = (s.onPluginReadData data x).progress.seen :=
    congrArg Progress.seen
      ((drive_progress s (.execute data) x).trans (drive_progress s (.plugin data) x).symm)
  rw [execute_exact_iff, plugin_exact_iff]
  constructor
  · rintro ⟨-, -, hexecute, hplugin⟩
    -- the plugin rules out an error, and `Execute` what is left behind
    rcases hplugin with hpaused | hok
    · exact Or.inl hpaused
    · exact hexecute.imp_right fun hiff => ⟨hok, hiff.mp hok⟩
  · intro h
    have hsame : (s.execute data x).errors = (s.onPluginReadData data x).errors := by
      rw [execute_errors, onPluginReadData_errors, if_neg, List.append_nil]
      rintro ⟨hnp, hpaused⟩
      exact h.elim hpaused fun hwhole => hnp hwhole.2
    refine ⟨hseen, hsame, h.imp_right fun hwhole => ?_, h.imp_right And.left⟩
    exact ⟨fun _ => hwhole.2, fun _ => hwhole.1⟩

/-- `http_parser` for requests, on a read that does not begin with a letter or an end of line. -/
def refuses : HttpParser Bool where
  execute _ _ := ⟨[], 0, true⟩
  -- `HPE_INVALID_METHOD`
  errno failed := if failed then 16 else HPE_OK
  pos_le hm := absurd hm (List.not_mem_nil)
  last h := absurd h (by simp)

/-- **The plugin keeps an error to itself** that `Execute` reports. -/
theorem not_reportsExactly_refused :
    ∃ x, server.parse refuses (fun _ => false) false [0] = some x ∧
      (server.execute [0] x).errors = [16] ∧ (server.onPluginReadData [0] x).errors = [] ∧
      ¬ ReportsExactly refuses (fun _ => false) server false [0] := by
  refine ⟨⟨true, server.progress, 0, 16⟩, rfl, rfl, rfl, fun h => ?_⟩
  obtain ⟨-, hsame, -⟩ := h ⟨true, server.progress, 0, 16⟩ rfl
  exact absurd hsame (by decide)

end Dv8.Http
