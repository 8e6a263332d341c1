import Dv8.Thread.Threads

namespace Dv8.Thread

open Dv8.Lib Dv8.V8 Dv8.Builtins

/-!
# The id of a thread, in its process and on the wire

The main thread counts ids without a bound.  The start-up block holds one byte of an id, and so
does the header of every frame, where `process.TID || process.PID` stands for a thread whose
`TID` is 0.

* `write_threadId` — the first byte of a frame;
* `identified_iff` — threads can be told apart as long as those that run have ids below 256;
* `identified_iff_along` — all along a run, exactly when no other thread boots in it.
-/

variable {ω : Type} {PID : Nat} {s s' : Threads} {t t' : Spawned}

/-- A text's frame begins with the id of the process. -/
theorem writeText_threadId {proc : Ipc.Process} {wb wb' : List UInt8} {opCode n : Nat}
    {text : JsString} (h : Ipc.Parser.writeText proc wb opCode text 0 = some (wb', n)) :
    DataView.getUint8 wb' 0 = some (UInt8.ofNat proc.id) := by
  simp only [Ipc.Parser.writeText, Option.bind_eq_bind, Option.bind_eq_some_iff] at h
  obtain ⟨wb₁, h₁, wb₂, h₂, wb₃, h₃, ⟨wb₄, written⟩, h₄, hwb'⟩ := h
  cases hwb'
  rw [DataView.setUint8, bigEndian_one] at h₁
  rw [Buffer.write, int32Value_natCast (by decide)] at h₄
  obtain ⟨block, hblock, heq⟩ := Option.map_eq_some_iff.mp h₄
  cases heq
  -- the writes behind the first byte, backwards
  rw [DataView.getUint8, getElem?_writeAt_before hblock (by decide),
    getElem?_writeAt_before h₃ (by decide), getElem?_writeAt_before h₂ (by decide)]
  exact getElem?_writeAt_first h₁

/-- **Every frame begins with the id of the process that writes it**, as far as one byte holds
    it. -/
theorem write_threadId {stringify : ω → Option JsString} {proc : Ipc.Process}
    {wb wb' : List UInt8} {o : Ipc.Outgoing ω} {n : Nat}
    (h : Ipc.Parser.write stringify proc wb o 0 = some (wb', n)) (hn : 0 < n) :
    DataView.getUint8 wb' 0 = some (UInt8.ofNat proc.id) := by
  cases o with
  | json o =>
    simp only [Ipc.Parser.write, Option.bind_eq_bind, Option.bind_eq_some_iff] at h
    obtain ⟨message, -, h⟩ := h
    exact writeText_threadId h
  | string text => exact writeText_threadId h
  | buffer size =>
    simp only [Ipc.Parser.write, Option.bind_eq_bind, Option.bind_eq_some_iff] at h
    obtain ⟨wb₁, h₁, wb₂, h₂, wb₃, h₃, hwb'⟩ := h
    cases hwb'
    rw [DataView.setUint8, bigEndian_one] at h₁
    rw [DataView.getUint8, getElem?_writeAt_before h₃ (by decide),
      getElem?_writeAt_before h₂ (by decide)]
    exact getElem?_writeAt_first h₁
  | other opCode =>
    -- nothing is written, and nothing is sent
    cases h
    contradiction

/-- Every running worker is the thread its parent takes it for. -/
structure Threads.Identified (s : Threads) : Prop where
  /-- A worker's `TID` is the key its parent keeps it under. -/
  tid : ∀ t ∈ s.spawned, ∀ c, t.stage = .running c → c.proc.TID = t.id ∧ t.id ∈ s.threads
  /-- 0 is the main thread. -/
  nonzero : ∀ t ∈ s.spawned, ∀ c, t.stage = .running c → c.proc.TID ≠ 0
  /-- No two workers that run share a `TID`. -/
  distinct : ∀ (i j : Nat) (t u : Spawned) (c d : Context), s.spawned[i]? = some t →
    s.spawned[j]? = some u → t.stage = .running c → u.stage = .running d →
      c.proc.TID = d.proc.TID → i = j
  /-- What a worker sends carries its id. -/
  frames : ∀ t ∈ s.spawned, ∀ c, t.stage = .running c →
    ∀ {ω : Type} (stringify : ω → Option JsString) (wb : List UInt8) (o : Ipc.Outgoing ω)
      (wb' : List UInt8) (n : Nat), Ipc.Parser.write stringify c.proc wb o 0 = some (wb', n) →
        0 < n → ∃ threadId, DataView.getUint8 wb' 0 = some threadId ∧ threadId.toNat = t.id

/-- Every worker that runs has an id that fits into a byte. -/
def Threads.Narrow (s : Threads) : Prop :=
  ∀ t ∈ s.spawned, ∀ c, t.stage = .running c → t.id ≤ 255

/-- What the start-up block makes of a thread's id. -/
theorem Threads.Sound.proc (h : s.Sound PID) (ht : t ∈ s.spawned) {c : Context}
    (hc : t.stage = .running c) : c.proc = ⟨(UInt8.ofNat t.id).toNat, PID⟩ :=
  (h.thread t ht).proc c (by rw [hc]; rfl)

theorem Threads.Sound.id_pos (h : s.Sound PID) (ht : t ∈ s.spawned) : 0 < t.id := by
  obtain ⟨i, hi⟩ := List.mem_iff_getElem?.mp ht
  rw [h.id i t hi]
  exact Nat.succ_pos i

/-- **Workers can be told apart** exactly when their ids fit into a byte. -/
theorem Threads.Sound.identified_iff (h : s.Sound PID) : s.Identified ↔ s.Narrow := by
  constructor
  · -- a TID is one byte, so an id that is its own TID is below 256
    intro hid t ht c hc
    have htid := (hid.tid t ht c hc).1
    have hlt : (UInt8.ofNat t.id).toNat < 256 := UInt8.toNat_lt _
    rw [h.proc ht hc] at htid
    have hle : t.id < 256 := htid ▸ hlt
    omega
  · intro hnarrow
    have htid : ∀ t ∈ s.spawned, ∀ c, t.stage = .running c → c.proc.TID = t.id := by
      intro t ht c hc
      have hle := hnarrow t ht c hc
      rw [h.proc ht hc]
      show (UInt8.ofNat t.id).toNat = t.id
      rw [UInt8.toNat_ofNat']
      omega
    constructor
    · intro t ht c hc
      exact ⟨htid t ht c hc, (h.threads t.id).mpr ⟨t, ht, rfl, by rw [hc]; rfl⟩⟩
    · intro t ht c hc
      rw [htid t ht c hc]
      exact Nat.ne_of_gt (h.id_pos ht)
    · intro i j t u c d hi hj hc hd heq
      rw [htid t (List.mem_of_getElem? hi) c hc, htid u (List.mem_of_getElem? hj) d hd,
        h.id i t hi, h.id j u hj] at heq
      exact Nat.add_right_cancel heq
    · intro t ht c hc ω stringify wb o wb' n hwrite hn
      have hpos := h.id_pos ht
      have hle := hnarrow t ht c hc
      have hproc : c.proc.id = t.id := by
        rw [Ipc.Process.id, htid t ht c hc, if_neg (by omega)]
      refine ⟨_, write_threadId hwrite hn, ?_⟩
      rw [hproc, UInt8.toNat_ofNat']
      omega

/-! ### Runs -/

/-- A worker boots with an id that fits into a byte. -/
def Threads.BootsNarrow (s : Threads) : Action → Prop
  | .event i .boot => ∀ t, s.spawned[i]? = some t → t.id ≤ 255
  | _ => True

/-- A step that boots no other worker keeps ids narrow, and only such a step. -/
theorem Threads.step_narrow_iff {a : Action} (hnarrow : s.Narrow)
    (hs : s.step PID a = some s') : s'.Narrow ↔ s.BootsNarrow a := by
  obtain ⟨env, args, fd, rfl, rfl | ⟨buffer, hbuffer, rfl⟩⟩ | ⟨i, e, t, t', rfl, ht, hmove, rfl⟩ :=
    Threads.step_cases hs
  · exact ⟨fun _ => trivial, fun _ => hnarrow⟩
  · refine ⟨fun _ => trivial, fun _ t ht c hc => ?_⟩
    rcases List.mem_append.mp ht with ht | ht
    · exact hnarrow t ht c hc
    · rw [List.mem_singleton.mp ht] at hc
      contradiction
  · obtain ⟨hi, -⟩ := List.getElem?_eq_some_iff.mp ht
    refine (forall_mem_set_iff hi hnarrow).trans ?_
    cases hmove with
    | boot hstage hTID => simp [Threads.BootsNarrow, ht]
    | @report c hstage =>
      -- it runs already
      have hle := hnarrow t (List.mem_of_getElem? ht) c hstage
      simp [Threads.BootsNarrow, hle]
    | start | fail | abort | finish | complete => simp [Threads.BootsNarrow]

/-- **Workers can be told apart all along a run** exactly when none but the first 255 threads
    boots in it. -/
theorem identified_iff_along {as : List Action} (h : run (Threads.step PID) .init as = some s) :
    (∀ bs cs u, as = bs ++ cs → run (Threads.step PID) .init bs = some u → u.Identified) ↔
      Along (Threads.step PID) Threads.BootsNarrow .init as := by
  refine forall_prefix_iff_along (I := Threads.Sound PID) ?_ Threads.sound_init ?_ h
  · intro s a s' hsound hid hs
    have hsound' := hsound.step hs
    refine ⟨hsound', ?_⟩
    rw [hsound'.identified_iff]
    exact Threads.step_narrow_iff (hsound.identified_iff.mp hid) hs
  · have hinit : Threads.Sound PID .init := Threads.sound_init
    apply hinit.identified_iff.mpr
    exact fun t ht => by simp [Threads.init] at ht

/-- One thread that runs. -/
theorem identified_iff_along_one : ∃ s, run (Threads.step 7) .init
    [.spawn ⟨[], by decide⟩ [] 0, .event 0 (.start 0), .event 0 .boot] = some s ∧
      s.Identified := by
  obtain ⟨s, hs⟩ : ∃ s, run (Threads.step 7) .init
      [.spawn ⟨[], by decide⟩ [] 0, .event 0 (.start 0), .event 0 .boot] = some s := by
    apply Option.isSome_iff_exists.mp
    decide +kernel
  refine ⟨s, hs, (identified_iff_along hs).mpr ?_ _ [] s (by simp) hs⟩
  refine Along.of_forall (I := Threads.Sound 7) (Q := fun a => ∀ i, a = .event i .boot → i = 0)
    (fun _ _ _ hsound _ hstep => hsound.step hstep) ?_ Threads.sound_init hs (by simp)
  intro s a s' hsound hfirst _
  cases a with
  | spawn env args fd => trivial
  | event i e =>
    cases e with
    | boot =>
      intro t ht
      rw [hsound.id i t ht, hfirst i rfl]
      decide
    | start | abort | report | finish | complete => trivial

/-- A thread that is spawned joins those that are queued. -/
theorem run_spawns (n : Nat) : ∃ s, run (Threads.step PID) .init
    (List.replicate n (.spawn ⟨[], by decide⟩ [] 0)) = some s ∧ s.Sound PID ∧
      s.spawned.length = n ∧ ∀ t ∈ s.spawned, t.stage = .queued := by
  induction n with
  | zero => exact ⟨.init, rfl, Threads.sound_init, rfl, fun t ht => by simp [Threads.init] at ht⟩
  | succ n ih =>
    obtain ⟨s, hrun, hsound, hlen, hqueued⟩ := ih
    have hspawn := @spawn_eq ⟨[], by decide⟩ [] (by decide) (by decide) s.next 0
    refine ⟨_, ?_, hsound.spawn (getUint8_spawn hspawn), by simp [hlen], ?_⟩
    · rw [List.replicate_succ', run_snoc_eq_some]
      refine ⟨s, hrun, ?_⟩
      simp only [Threads.step]
      rw [hspawn]
    · intro t ht
      rcases List.mem_append.mp ht with ht | ht
      · exact hqueued t ht
      · rw [List.mem_singleton.mp ht]

/-- A queued thread can be started, and boots. -/
theorem exists_running {i : Nat} (hsound : s.Sound PID) (ht : s.spawned[i]? = some t)
    (hstage : t.stage = .queued) : ∃ s' t' c, run (Threads.step PID) s
      [.event i (.start 0), .event i .boot] = some s' ∧ t' ∈ s'.spawned ∧ t'.id = t.id ∧
        t'.stage = .running c := by
  obtain ⟨hi, -⟩ := List.getElem?_eq_some_iff.mp ht
  have hbyte := (hsound.thread t (List.mem_of_getElem? ht)).buffer
  obtain ⟨c, hc⟩ : ∃ c : Context, c = ⟨⟨(UInt8.ofNat t.id).toNat, PID⟩, false, false⟩ := ⟨_, rfl⟩
  have hstart : t.step PID (.start 0) = some { t with stage := .created } := by
    simp [Spawned.step, hstage]
  have hboot : Spawned.step PID { t with stage := .created } .boot =
      some { t with stage := .running c } := by
    simp [Spawned.step, hbyte, hc]
  have h₁ : s.step PID (.event i (.start 0)) =
      some { s with spawned := s.spawned.set i { t with stage := .created } } := by
    simp [Threads.step, ht, hstart]
  have h₂ : Threads.step PID { s with spawned := s.spawned.set i { t with stage := .created } }
      (.event i .boot) =
        some { s with spawned := s.spawned.set i { t with stage := .running c } } := by
    simp [Threads.step, List.getElem?_set_self hi, hboot]
  exact ⟨_, { t with stage := .running c }, c,
    run_cons_eq_some.mpr ⟨_, h₁, run_cons_eq_some.mpr ⟨_, h₂, rfl⟩⟩, List.mem_set hi _, rfl, rfl⟩

/-- Whatever thread runs beyond the first 255 is taken for another one. -/
theorem not_identified_of_le {n : Nat} (hn : 255 ≤ n) : ∃ s, run (Threads.step PID) .init
    (List.replicate (n + 1) (.spawn ⟨[], by decide⟩ [] 0) ++
      [.event n (.start 0), .event n .boot]) = some s ∧ ¬ s.Identified := by
  obtain ⟨s, hrun, hsound, hlen, hqueued⟩ := @run_spawns PID (n + 1)
  obtain ⟨t, ht⟩ : ∃ t, s.spawned[n]? = some t :=
    ⟨_, List.getElem?_eq_getElem (by omega)⟩
  have hmem : t ∈ s.spawned := List.mem_of_getElem? ht
  obtain ⟨s', t', c, hboots, hmem', hid, hrunning⟩ :=
    exists_running hsound ht (hqueued t hmem)
  have hrun' : run (Threads.step PID) .init (List.replicate (n + 1) (.spawn ⟨[], by decide⟩ [] 0) ++
      [.event n (.start 0), .event n .boot]) = _ := run_append _ _ _
  rw [hrun, Option.bind_some, hboots] at hrun'
  have hsound' : s'.Sound PID :=
    run_invariant (fun _ _ _ hs hstep => hs.step hstep) Threads.sound_init hrun'
  refine ⟨s', hrun', fun hidentified => ?_⟩
  have hle := hsound'.identified_iff.mp hidentified t' hmem' c hrunning
  rw [hid, hsound.id n t ht] at hle
  omega

/-- The 256th thread takes itself for the main thread. -/
theorem not_identified_256 : ∃ s, run (Threads.step 7) .init
    (List.replicate 256 (.spawn ⟨[], by decide⟩ [] 0) ++
      [.event 255 (.start 0), .event 255 .boot]) = some s ∧ ¬ s.Identified :=
  not_identified_of_le (Nat.le_refl 255)

end Dv8.Thread
