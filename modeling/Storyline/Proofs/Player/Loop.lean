import Mathlib.Logic.Function.Iterate
import Storyline.Player.Terminal
import Storyline.Proofs.Game.Downhill
import Storyline.Proofs.Player.Prompt

/-!
# The loops of the terminal player

* `Loop`: the player in the midst of its loops, with the files and the lines that are still to be read, and
  `Loop.tick`: one pass of the outer loop, which asks the game for a step, or of the inner one, which reads
  a line. Nothing bounds the number of passes, and a pass that finds nothing to wait for goes on;
* `Loop.Good`: what is true between two passes: a step that waits was answered before the outer loop goes on,
  and what is asked for is what the step waits for;
* `Good.prompts`: so the outer loop never finds a future that is open and nothing to ask for;
* `Loop.weight`: **what every pass lowers**, in a story that goes down;
* `Loop.rest`: what the player makes of the rest of the input, which no pass changes;
* `Good.finishes`: the loops come to an end, and that is where the player ends.
-/

namespace Storyline

open Effect

/-- What a program answers or fails with, and the state that it leaves. -/
def Effect.outcome {ε σ α : Type} : EStateM.Result ε σ α → Except ε α × σ
  | .ok a s => (.ok a, s)
  | .error e s => (.error e, s)

theorem Futures.Asks.isSolved_settle {fs : Futures} {f : FutureId} {receive : Resolution → Outcome}
    (h : fs.Asks f receive) (r : Resolution) : (fs.settle (f, r)).isSolved f = true := by
  unfold Futures.isSolved
  cases hf : fs.result? f with
  | none =>
    rw [h.answer hf r]
    rfl
  | some o =>
    -- it was answered before, and stays as it is
    have hspent : fs.get? f = some { receiver := none, result := some o } := by
      unfold Futures.result? at hf
      rcases h with h | ⟨r', h⟩
      · rw [h] at hf
        cases hf
      · rw [h] at hf ⊢
        rw [← hf]
        rfl
    have hsame : fs.settle (f, r) = fs := by
      unfold Futures.settle Futures.resolve
      rw [hspent]
      rfl
    rw [hsame, hf]
    rfl

/-! ### Sessions with files of any kind -/

namespace Session

variable {σ ω α β : Type} {g : Game σ} {files : ω}

/-- A session, run: its answer, the game and the files that it leaves. -/
def within (s : Session σ (StateM ω) α) (g : Game σ) (files : ω) :
    (Except GameError α × Game σ) × ω := (s.run.run g).run files

theorem within_bind (s : Session σ (StateM ω) α) (f : α → Session σ (StateM ω) β) (g : Game σ)
    (files : ω) : within (s >>= f) g files =
      match within s g files with
      | ((.ok a, g'), files') => within (f a) g' files'
      | ((.error e, g'), files') => ((.error e, g'), files') := by
  have hbind : within (s >>= f) g files = (ExceptT.bindCont f (within s g files).1.1 :
      StateT (Game σ) (StateM ω) _) (within s g files).1.2 (within s g files).2 := rfl
  rw [hbind]
  rcases within s g files with ⟨⟨_ | _, _⟩, _⟩ <;> rfl

theorem within_play (p : Play σ α) (g : Game σ) (files : ω) :
    within (play p) g files = (outcome (p g), files) := by
  unfold play
  rw [within_bind]
  have hget : within (get : Session σ (StateM ω) (Game σ)) g files = ((.ok g, g), files) := rfl
  rw [hget]
  simp only
  cases p g <;> rfl

theorem within_archived (r : ExceptT PersistError (StateM ω) α) (g : Game σ) (files : ω) :
    ∃ x files', within (archived r) g files = ((x, g), files') := by
  obtain ⟨x, hx⟩ : ∃ x, r.run.run files = x := ⟨_, rfl⟩
  have hrun : within (liftM r.run : Session σ (StateM ω) _) g files = ((.ok x.1, g), x.2) := by
    rw [← hx]
    rfl
  unfold archived
  rw [within_bind, hrun]
  rcases x with ⟨e | a, files'⟩
  · exact ⟨_, _, rfl⟩
  · exact ⟨_, _, rfl⟩

/-- A game that differs in its save and its store alone. -/
def Restores (g g' : Game σ) : Prop :=
  ∃ saved store, g' = { g with live := { g.live with saved }, stage := { g.stage with store } }

theorem restores_refl (g : Game σ) : Restores g g := ⟨g.live.saved, g.stage.store, rfl⟩

/-- An archive is asked first, and what comes of that does no more than it says. -/
theorem restores_archived_bind {r : ExceptT PersistError (StateM ω) α}
    {k : α → Session σ (StateM ω) β}
    (h : ∀ a files', Restores g (within (k a) g files').1.2) :
    Restores g (within (archived r >>= k) g files).1.2 := by
  obtain ⟨x, files', hrun⟩ := within_archived r g files
  rw [within_bind, hrun]
  cases x with
  | error e => exact restores_refl g
  | ok a => exact h a files'

/-- **Saving** changes the game in its save alone, whatever becomes of the files. -/
theorem restores_saveGame (archive : Archive (StateM ω)) (name : String) (now : Instant)
    (g : Game σ) (files : ω) : Restores g (within (saveGame archive name now) g files).1.2 := by
  unfold saveGame
  rw [within_bind]
  show Restores g (within (archived (archive.createFolder g.config.savesFolder) >>= _) g files).1.2
  refine restores_archived_bind fun _ files₁ => restores_archived_bind fun _ files₂ => ?_
  exact ⟨_, g.stage.store, rfl⟩

/-- **Loading** changes the game in its save and its store alone. -/
theorem restores_loadGame (archive : Archive (StateM ω)) (name : String) (g : Game σ) (files : ω) :
    Restores g (within (loadGame archive name) g files).1.2 := by
  unfold loadGame
  rw [within_bind]
  show Restores g (within (archived (archive.load (saveName g.config name)) >>= _) g files).1.2
  exact restores_archived_bind fun saved files₁ => ⟨_, _, rfl⟩

end Session

namespace Player

/-! ### The loops -/

/-- How the player ends. -/
inductive Ending where
  /-- The story has ended. -/
  | story
  | quit
  /-- There are no more lines. -/
  | input
  | failed (e : GameError)

/-- The exit code. -/
def Ending.code : Ending → Nat
  | failed _ => 1
  | _ => 0

/-- Where the player is in its loops. -/
inductive Station where
  /-- The outer loop asks the game for its next step. -/
  | stepping
  /-- The inner loop reads a line. -/
  | reading (q : Waiting)
  | ended (ending : Ending)

/-- **The player in the midst of its loops.** -/
structure Loop (ω : Type) where
  game : Game Console
  files : ω
  /-- The lines that are still to be read, with the times they come at. -/
  input : List (String × Instant)
  station : Station

/-- A game whose screen is changed. -/
def onScreen (f : Console → Console) (g : Game Console) : Game Console :=
  g.mapStage fun s => { s with screen := f s.screen }

/-- A game that prompts for a line. -/
def prompt (g : Game Console) : Game Console := onScreen (·.put (.out "> ")) g

section Advance

variable {g g' : Game Console} {f : FutureId} {o : Outcome} {e : GameError} {limit : Nat}

theorem advance_of_error (hn : Play.next Console.screen g = .error e g') :
    advance (limit + 1) g = .error e g' := bind_of_error hn

theorem advance_of_advanced (hn : Play.next Console.screen g = .ok (.advanced o) g') :
    advance (limit + 1) g = advance limit g' := bind_of_ok hn

theorem advance_of_terminated (hn : Play.next Console.screen g = .ok .terminated g') :
    advance (limit + 1) g = .ok .over (onScreen (·.print "\n-- The End --") g') := bind_of_ok hn

theorem advance_of_solved (hn : Play.next Console.screen g = .ok (.suspended f) g')
    (hf : g'.stage.futures.isSolved f = true) : advance (limit + 1) g = advance limit g' := by
  refine (bind_of_ok hn).trans ?_
  simp only [bind_get_apply]
  rw [if_pos hf]

theorem advance_of_open (hn : Play.next Console.screen g = .ok (.suspended f) g')
    (hf : ¬ g'.stage.futures.isSolved f = true) : advance (limit + 1) g =
      match g'.stage.screen.waiting with
      | some q => .ok (.asking q) (prompt (onScreen ({ · with waiting := none }) g'))
      | none => advance limit (onScreen ({ · with waiting := none }) g') := by
  have htaken : takeWaiting g' =
      .ok g'.stage.screen.waiting (onScreen ({ · with waiting := none }) g') := rfl
  refine (bind_of_ok hn).trans ?_
  simp only [bind_get_apply]
  rw [if_neg hf, bind_of_ok htaken]
  cases g'.stage.screen.waiting <;> rfl

end Advance

namespace Loop

variable {ω : Type}

/-- An error ends the player. -/
def fail (l : Loop ω) (e : GameError) (g : Game Console) : Loop ω :=
  { l with
    game := onScreen (·.put (.err s!"Error: {e.message}\n")) g
    station := .ended (.failed e) }

/-- A pass of the outer loop. -/
def step (l : Loop ω) : Loop ω :=
  match Play.next Console.screen l.game with
  | .error e g => l.fail e g
  | .ok (.advanced _) g => { l with game := g }
  | .ok .terminated g =>
    { l with game := onScreen (·.print "\n-- The End --") g, station := .ended .story }
  | .ok (.suspended f) g =>
    if g.stage.futures.isSolved f then { l with game := g }
    else
      let taken := onScreen ({ · with waiting := none }) g
      match g.stage.screen.waiting with
      | some q => { l with game := prompt taken, station := .reading q }
      | none => { l with game := taken }

/-- The line is asked for again. -/
def again (l : Loop ω) (q : Waiting) (report : String) : Loop ω :=
  { l with game := prompt (onScreen (·.print report) l.game), station := .reading q }

/-- An answer to what was asked. -/
def answered (l : Loop ω) (f : FutureId) (r : Resolution) : Loop ω :=
  { l with game := l.game.answered (f, r), station := .stepping }

/-- What comes of a command that uses files; the question stays open. -/
def filed (l : Loop ω) (q : Waiting) (s : Session Console (StateM ω) SavedGame)
    (report : SavedGame → String) : Loop ω :=
  match s.within l.game l.files with
  | ((.ok saved, game), files) => { l with game, files }.again q (report saved)
  | ((.error e, game), files) => { l with files }.fail e game

/-- What comes of a command. -/
def obey (fs : FileSystem (StateM ω)) (saves : String) (l : Loop ω) (now : Instant) (q : Waiting) :
    Command → Loop ω
  | .quit => { l with station := .ended .quit }
  | .undo =>
    match Play.undoLast l.game with
    | .ok outcome g =>
      let report := match outcome with
        | some o => s!"(undid {o.tag})"
        | none => "(nothing to undo)"
      { l with game := onScreen (·.print report) g, station := .stepping }
    | .error e g => l.fail e g
  | .save name =>
    l.filed q (Session.saveGame (.ofFiles fs saves) name now) fun saved => s!"(saved {saved.name})"
  | .load name =>
    l.filed q (Session.loadGame (.ofFiles fs saves) name) fun saved =>
      s!"(loaded {saved.name} from {saved.updated.display})"
  | .answer text =>
    match q with
    | .line f => l.answered f .proceed
    | .menu f count =>
      match entryNumber? text with
      | some (n + 1) =>
        if n < count then l.answered f (.choose n) else l.again q s!"Pick 1-{count}"
      | _ => l.again q s!"Pick 1-{count}"

/-- A pass of the inner loop. -/
def read (fs : FileSystem (StateM ω)) (saves : String) (l : Loop ω) (q : Waiting) : Loop ω :=
  match l.input with
  | [] => { l with station := .ended .input }
  | (line, now) :: input => { l with input }.obey fs saves now q (.ofLine line)

/-- **One pass** of the loop that the player is in. -/
def tick (fs : FileSystem (StateM ω)) (saves : String) (l : Loop ω) : Loop ω :=
  match l.station with
  | .stepping => l.step
  | .reading q => l.read fs saves q
  | .ended _ => l

/-! ### Between two passes -/

end Loop

/-- The screen asks for what a step waits for: the future of the step, and of as many entries as its menu
has. -/
def Prompts (f : FutureId) (g : Game Console) : Prop :=
  ∃ p a q, g.live.pending = some p ∧ p.future = f ∧ g.world.action? p.node = some a ∧
    g.stage.screen.waiting = some q ∧ q.Asks g.world a f

namespace Loop

variable {ω : Type} {height floor : NodeId → Nat} {top : Nat} {l : Loop ω} {g g' : Game Console}
  {f : FutureId} {q : Waiting} {fs : FileSystem (StateM ω)} {saves : String}

/-- **What is true between two passes.** -/
def Good (height floor : NodeId → Nat) (l : Loop ω) : Prop :=
  match l.station with
  | .stepping => l.game.Descending height floor ∧
      ∀ p, l.game.live.pending = some p → l.game.stage.futures.isSolved p.future = true
  | .reading q => l.game.Descending height floor ∧
      ∃ p, l.game.live.pending = some p ∧ p.future = q.future
  | .ended _ => True

/-- A bound of the passes that are left. -/
def weight (height : NodeId → Nat) (top : Nat) (l : Loop ω) : Nat :=
  match l.station with
  | .stepping => (Game.mostSteps top + 2) * l.input.length + l.game.stepsLeft height top + 2
  | .reading _ => (Game.mostSteps top + 2) * l.input.length + 1
  | .ended _ => 0

/-- **A step that comes to wait** was begun just now, and is answered, or the screen asks for what it
waits for. -/
theorem prompts_of_next (hsolved : ∀ p, g.live.pending = some p →
      g.stage.futures.isSolved p.future = true) (hw : g.world.Sound)
    (hn : Play.next Console.screen g = .ok (.suspended f) g') :
    g.live.pending = none ∧ (g'.stage.futures.isSolved f = false → Prompts f g') := by
  have hkeeps := Play.keeps_of_next hw hn
  cases Play.moved_of_next hn with
  | waits p hp hf =>
    have hs := hsolved p hp
    unfold Futures.isSolved at hs
    rw [hf] at hs
    cases hs
  | begins node a f s hp ha hs =>
    refine ⟨hp, fun hopen => ?_⟩
    obtain ⟨-, -, q, hq, hasks⟩ := (Console.shown_of_execute ha hs).asks f rfl hopen
    exact ⟨_, a, q, rfl, rfl, (hkeeps.action? node).trans ha, hq, hasks⟩

theorem descending_onScreen (h : g.Descending height floor) (f : Console → Console) :
    (onScreen f g).Descending height floor := h.host g.live.saved g.stage.store (f g.stage.screen)

theorem descending_prompt (h : g.Descending height floor) (f : Console → Console) :
    (prompt (onScreen f g)).Descending height floor :=
  descending_onScreen (descending_onScreen h f) _

/-- **A pass of the outer loop.** -/
theorem Good.step (h : l.Good height floor) (hs : l.station = .stepping) (htop : ∀ x, height x ≤ top) :
    l.step.Good height floor ∧ l.step.weight height top < l.weight height top := by
  unfold Good at h
  rw [hs] at h
  obtain ⟨hd, hsolved⟩ := h
  have hweight : l.weight height top =
      (Game.mostSteps top + 2) * l.input.length + l.game.stepsLeft height top + 2 := by
    unfold weight
    rw [hs]
  rw [hweight]
  unfold Loop.step
  -- a step that goes on is less to do; at a prompt the loop has to read
  cases hn : Play.next Console.screen l.game with
  | error e g => exact ⟨trivial, Nat.succ_pos _⟩
  | ok step g =>
    cases step with
    | advanced o =>
      have ha := hd.stepping.advances hd.sound hn
      simp only
      unfold Good weight
      simp only [hs]
      refine ⟨⟨hd.advance ha, fun p hp => by cases ha.pending.symm.trans hp⟩, ?_⟩
      have := hd.stepsLeft_lt_of_advances htop ha
      omega
    | terminated => exact ⟨trivial, Nat.succ_pos _⟩
    | suspended f =>
      have ha := hd.stepping.halts hd.sound hn
      have hdown := hd.halt ha
      obtain ⟨hp, hprompts⟩ := prompts_of_next hsolved hd.sound hn
      obtain ⟨p, hpending, hfuture, -⟩ := ha.pending
      simp only
      split
      · -- the prompt has been answered by the console itself
        rename_i hf
        unfold Good weight
        simp only [hs]
        refine ⟨⟨hdown, fun p' hp' => ?_⟩, ?_⟩
        · obtain rfl := Option.some.inj (hpending.symm.trans hp')
          rwa [hfuture]
        · have := Game.Descending.stepsLeft_lt_of_halts height top hp ha
          omega
      · -- the prompt is shown, and reading a line is what comes next
        rename_i hf
        obtain ⟨p', a, q, hp', hf', -, hq, hasks⟩ := hprompts (by simpa using hf)
        simp only [hq]
        refine ⟨⟨descending_prompt hdown _, p', hp', ?_⟩, ?_⟩
        · rw [hf', hasks.future]
        · show (Game.mostSteps top + 2) * l.input.length + 1 < _
          omega

section Read

variable {k : Loop ω} {n : Nat}

/-- What a pass that reads a line leads to, where `n` lines were left: what is true between two passes is
so again, and the weight is less than that of a question. -/
def GoodBelow (height floor : NodeId → Nat) (top n : Nat) (k : Loop ω) : Prop :=
  k.Good height floor ∧ k.weight height top < (Game.mostSteps top + 2) * n + 1

theorem goodBelow_reading (hd : k.game.Descending height floor) (hs : k.station = .reading q)
    (hp : ∃ p, k.game.live.pending = some p ∧ p.future = q.future)
    (hn : k.input.length + 1 = n) : k.GoodBelow height floor top n := by
  unfold GoodBelow Good weight
  rw [hs]
  refine ⟨⟨hd, hp⟩, ?_⟩
  have hlines := Nat.mul_add_one (Game.mostSteps top + 2) k.input.length
  rw [hn] at hlines
  simp only
  omega

theorem goodBelow_stepping (htop : ∀ x, height x ≤ top) (hd : k.game.Descending height floor)
    (hs : k.station = .stepping)
    (hp : ∀ p, k.game.live.pending = some p → k.game.stage.futures.isSolved p.future = true)
    (hn : k.input.length + 1 = n) : k.GoodBelow height floor top n := by
  unfold GoodBelow Good weight
  rw [hs]
  refine ⟨⟨hd, hp⟩, ?_⟩
  have hlines := Nat.mul_add_one (Game.mostSteps top + 2) k.input.length
  rw [hn] at hlines
  have := Game.stepsLeft_le htop k.game
  simp only
  omega

theorem goodBelow_fail (l : Loop ω) (e : GameError) (g : Game Console) :
    (l.fail e g).GoodBelow height floor top n := ⟨trivial, Nat.succ_pos _⟩

theorem goodBelow_again (hd : l.game.Descending height floor)
    (hp : ∃ p, l.game.live.pending = some p ∧ p.future = q.future) (hn : l.input.length + 1 = n)
    {game : Game Console} (hr : Session.Restores l.game game) (files : ω) (report : String) :
    (({ l with game, files } : Loop ω).again q report).GoodBelow height floor top n := by
  obtain ⟨saved, store, rfl⟩ := hr
  have hdown := descending_prompt (hd.host saved store l.game.stage.screen) (·.print report)
  exact goodBelow_reading (k := Loop.again { l with files, game := _ } q report) hdown rfl hp hn

theorem goodBelow_answered (htop : ∀ x, height x ≤ top) (hd : l.game.Descending height floor)
    (hp : ∃ p, l.game.live.pending = some p ∧ p.future = q.future) (hn : l.input.length + 1 = n)
    (r : Resolution) : (l.answered q.future r).GoodBelow height floor top n := by
  obtain ⟨p, hp, hfuture⟩ := hp
  refine goodBelow_stepping htop (hd.answer (q.future, r)) rfl (fun p' hp' => ?_) hn
  obtain rfl := Option.some.inj (hp.symm.trans hp')
  obtain ⟨a, -, -, -, hasks⟩ := (hd.stepping.waits p hp).action
  exact hfuture ▸ hasks.isSolved_settle r

theorem goodBelow_filed (hd : l.game.Descending height floor)
    (hp : ∃ p, l.game.live.pending = some p ∧ p.future = q.future) (hn : l.input.length + 1 = n)
    (s : Session Console (StateM ω) SavedGame) (report : SavedGame → String)
    (hr : Session.Restores l.game (s.within l.game l.files).1.2) :
    (l.filed q s report).GoodBelow height floor top n := by
  unfold filed
  rcases hrun : s.within l.game l.files with ⟨⟨e | saved, game⟩, files⟩
  · exact goodBelow_fail _ e game
  · rw [hrun] at hr
    exact goodBelow_again hd hp hn hr files _

/-- **What comes of a command.** -/
theorem goodBelow_obey (fs : FileSystem (StateM ω)) (saves : String) (htop : ∀ x, height x ≤ top)
    (hd : l.game.Descending height floor)
    (hp : ∃ p, l.game.live.pending = some p ∧ p.future = q.future) (hn : l.input.length + 1 = n)
    (now : Instant) (c : Command) : (l.obey fs saves now q c).GoodBelow height floor top n := by
  -- only an answer and `undo` let the game go on; saving and loading leave the prompt open
  cases c with
  | quit => exact ⟨trivial, Nat.succ_pos _⟩
  | undo =>
    unfold obey
    simp only
    cases hu : Play.undoLast l.game with
    | error e g => exact goodBelow_fail _ e g
    | ok out g =>
      obtain ⟨hback, hidle⟩ := hd.undo hu
      have hdown : ∀ report, (onScreen (·.print report) g).Descending height floor :=
        fun report => descending_onScreen hback (·.print report)
      exact goodBelow_stepping htop (hdown _) rfl (fun p hp => by cases hidle.symm.trans hp) hn
  | save name => exact goodBelow_filed hd hp hn _ _ (Session.restores_saveGame _ name now _ _)
  | load name => exact goodBelow_filed hd hp hn _ _ (Session.restores_loadGame _ name _ _)
  | answer text =>
    unfold obey
    cases q with
    | line f => exact goodBelow_answered htop hd hp hn .proceed
    | menu f count =>
      have hagain : (l.again (.menu f count) s!"Pick 1-{count}").GoodBelow height floor top n :=
        goodBelow_again hd hp hn (Session.restores_refl _) l.files _
      simp only
      split
      · split
        · exact goodBelow_answered htop hd hp hn _
        · exact hagain
      · exact hagain

end Read

/-- **A pass of the inner loop.** -/
theorem Good.read (fs : FileSystem (StateM ω)) (saves : String) (h : l.Good height floor)
    (hs : l.station = .reading q) (htop : ∀ x, height x ≤ top) : (l.read fs saves q).Good height floor ∧
      (l.read fs saves q).weight height top < l.weight height top := by
  unfold Good at h
  rw [hs] at h
  obtain ⟨hd, hp⟩ := h
  have hweight : l.weight height top = (Game.mostSteps top + 2) * l.input.length + 1 := by
    unfold weight
    rw [hs]
  rw [hweight]
  unfold Loop.read
  cases hinput : l.input with
  | nil => exact ⟨trivial, Nat.succ_pos _⟩
  | cons head input =>
    exact goodBelow_obey (l := { l with input }) fs saves htop hd hp rfl head.2 (.ofLine head.1)

/-- **Every pass** keeps what is true between two passes, and lowers the weight until the player is over. -/
theorem Good.tick (h : l.Good height floor) (htop : ∀ x, height x ≤ top) :
    (l.tick fs saves).Good height floor ∧
      ((l.tick fs saves).weight height top < l.weight height top ∨ ∃ e, l.station = .ended e) := by
  unfold Loop.tick
  cases hs : l.station with
  | stepping =>
    obtain ⟨hgood, hless⟩ := h.step hs htop
    exact ⟨hgood, .inl hless⟩
  | reading q =>
    obtain ⟨hgood, hless⟩ := h.read fs saves hs htop
    exact ⟨hgood, .inl hless⟩
  | ended e => exact ⟨h, .inr ⟨e, rfl⟩⟩

/-- What is true between two passes is true however many were made. -/
theorem Good.iterate (h : l.Good height floor) (htop : ∀ x, height x ≤ top) (n : Nat) :
    ((Loop.tick fs saves)^[n] l).Good height floor := by
  induction n generalizing l with
  | zero => exact h
  | succ n ih => exact ih (h.tick htop).1

/-- **The outer loop never finds a future that is open and nothing to ask for.** -/
theorem Good.prompts (h : l.Good height floor) (hs : l.station = .stepping)
    (hn : Play.next Console.screen l.game = .ok (.suspended f) g)
    (hf : g.stage.futures.isSolved f = false) : Prompts f g := by
  unfold Good at h
  rw [hs] at h
  exact (prompts_of_next h.2 h.1.sound hn).2 hf

/-! ### The rest of the input -/

/-- The player that its loops leave behind. -/
def left (saves : String) (l : Loop ω) (e : Ending) : Terminal × ω :=
  (⟨l.game, saves, .error e.code⟩, l.files)

/-- What the player makes of the rest of its input, where the outer loop makes `limit` passes at most
before it asks for the next line. -/
def rest (fs : FileSystem (StateM ω)) (saves : String) (limit : Nat) (l : Loop ω) : Terminal × ω :=
  match l.station with
  | .stepping =>
    (Terminal.settled saves (outcome (advance limit l.game))).takeAll fs l.input l.files
  | .reading q => Terminal.takeAll ⟨l.game, saves, .ok q⟩ fs l.input l.files
  | .ended e => l.left saves e

theorem takeAll_of_over (code : Nat) (input : List (String × Instant)) (files : ω) :
    Terminal.takeAll ⟨g, saves, .error code⟩ fs input files = (⟨g, saves, .error code⟩, files) := by
  induction input with
  | nil => rfl
  | cons head input ih => exact ih

theorem takeAll_of_asking (line : String) (now : Instant) (input : List (String × Instant))
    (files : ω) : Terminal.takeAll ⟨g, saves, .ok q⟩ fs ((line, now) :: input) files =
      (Terminal.settled saves
        (Session.within (Player.obey (.ofFiles fs saves) now q (.ofLine line)) g files).1).takeAll fs
        input (Session.within (Player.obey (.ofFiles fs saves) now q (.ofLine line)) g files).2 := rfl

/-- **A pass of the outer loop** does not change what comes of the rest. -/
theorem rest_step (hs : l.station = .stepping) (limit : Nat) :
    l.rest fs saves (limit + 1) = l.step.rest fs saves limit := by
  unfold rest step
  simp only [hs]
  cases hn : Play.next Console.screen l.game with
  | error e g =>
    rw [advance_of_error hn]
    exact takeAll_of_over _ _ _
  | ok step g =>
    cases step with
    | advanced o => rw [advance_of_advanced hn]
    | terminated =>
      rw [advance_of_terminated hn]
      exact takeAll_of_over _ _ _
    | suspended f =>
      simp only
      by_cases hf : g.stage.futures.isSolved f = true
      · rw [advance_of_solved hn hf, if_pos hf]
      · rw [advance_of_open hn hf, if_neg hf]
        cases g.stage.screen.waiting with
        | some q => rfl
        | none => rfl

/-- The player behind a session, which takes the rest of the input. -/
def restBehind (fs : FileSystem (StateM ω)) (saves : String) (l : Loop ω)
    (s : Session Console (StateM ω) Stand) : Terminal × ω :=
  (Terminal.settled saves (s.within l.game l.files).1).takeAll fs l.input (s.within l.game l.files).2

theorem restBehind_play (p : Play Console Stand) : restBehind fs saves l (Session.play p) =
    (Terminal.settled saves (outcome (p l.game))).takeAll fs l.input l.files := by
  unfold restBehind
  rw [Session.within_play]

/-- **A command** does not change what comes of the rest. -/
theorem rest_obey (q : Waiting) (c : Command) (now : Instant) :
    restBehind fs saves l (Player.obey (.ofFiles fs saves) now q c) =
      (l.obey fs saves now q c).rest fs saves stepLimit := by
  have hfiled : ∀ (s : Session Console (StateM ω) SavedGame) (report : SavedGame → String),
      restBehind fs saves l (do
        let saved ← s
        Session.play (onConsole (·.print (report saved)))
        Session.play (Player.ask q)) = (l.filed q s report).rest fs saves stepLimit := by
    intro s report
    unfold filed
    simp only [restBehind, Session.within_bind]
    rcases s.within l.game l.files with ⟨⟨e | saved, game⟩, files⟩
    · exact takeAll_of_over _ _ _
    · simp only [Session.within_play]
      rfl
  cases c with
  | quit => exact takeAll_of_over _ _ _
  | undo =>
    unfold Player.obey Loop.obey
    simp only
    rw [restBehind_play]
    unfold undo
    cases hu : Play.undoLast l.game with
    | error e g =>
      rw [bind_of_error hu]
      exact takeAll_of_over _ _ _
    | ok out g =>
      rw [bind_of_ok hu]
      rfl
  | save name => exact hfiled _ fun saved => s!"(saved {saved.name})"
  | load name =>
    exact hfiled _ fun saved => s!"(loaded {saved.name} from {saved.updated.display})"
  | answer text =>
    unfold Player.obey Loop.obey
    simp only
    rw [restBehind_play]
    cases q with
    | line f => rfl
    | menu f count =>
      unfold answer
      rcases entryNumber? text with _ | _ | n
      · rfl
      · rfl
      · by_cases hn : n < count
        · simp only [if_pos hn]
          rfl
        · simp only [if_neg hn]
          rfl

/-- **A pass of the inner loop** does not change what comes of the rest. -/
theorem rest_read (hs : l.station = .reading q) (limit : Nat) :
    l.rest fs saves limit = (l.read fs saves q).rest fs saves stepLimit := by
  unfold rest read
  simp only [hs]
  cases l.input with
  | nil => rfl
  | cons head input =>
    obtain ⟨line, now⟩ := head
    rw [takeAll_of_asking]
    exact rest_obey (l := { l with input }) q _ now

/-! ### The end of the loops -/

theorem input_step : l.step.input = l.input := by
  unfold step
  split
  · rfl
  · rfl
  · rfl
  · split
    · rfl
    · split <;> rfl

theorem weight_of_stepping (height : NodeId → Nat) (top : Nat) (hs : l.station = .stepping) :
    l.weight height top =
      (Game.mostSteps top + 2) * l.input.length + l.game.stepsLeft height top + 2 := by
  unfold weight
  rw [hs]

/-- **The loops come to an end**, and there the player ends, which stops its outer loop nowhere. -/
theorem Good.finishes (fs : FileSystem (StateM ω)) (saves : String) (h : l.Good height floor)
    (htop : ∀ x, height x ≤ top) (hmost : Game.mostSteps top < stepLimit) {limit : Nat}
    (hlimit : l.station = .stepping → l.game.stepsLeft height top < limit) :
    ∃ n e, n ≤ l.weight height top ∧ ((Loop.tick fs saves)^[n] l).station = .ended e ∧
      l.rest fs saves limit = ((Loop.tick fs saves)^[n] l).left saves e := by
  -- the induction is on the weight, which every pass lowers
  induction hw : l.weight height top using Nat.strongRecOn generalizing l limit with
  | _ w ih =>
    subst hw
    cases hs : l.station with
    | ended e =>
      refine ⟨0, e, Nat.zero_le _, hs, ?_⟩
      unfold rest
      rw [hs]
      rfl
    | stepping =>
      have hsteps := hlimit hs
      obtain ⟨k, rfl⟩ := Nat.exists_eq_succ_of_ne_zero (Nat.ne_zero_of_lt hsteps)
      obtain ⟨hgood, hless⟩ := h.step hs htop
      have hk : l.step.station = .stepping → l.step.game.stepsLeft height top < k := by
        intro hs'
        rw [weight_of_stepping height top hs, weight_of_stepping height top hs', input_step] at hless
        omega
      obtain ⟨n, e, hn, hover, hrest⟩ := ih _ hless hgood hk rfl
      have htick : l.tick fs saves = l.step := by
        unfold Loop.tick
        rw [hs]
      refine ⟨n + 1, e, by omega, ?_, ?_⟩
      · rw [Function.iterate_succ_apply, htick]
        exact hover
      · rw [Function.iterate_succ_apply, htick, rest_step hs]
        exact hrest
    | reading q =>
      obtain ⟨hgood, hless⟩ := h.read fs saves hs htop
      have hk := Nat.lt_of_le_of_lt (Game.stepsLeft_le htop (l.read fs saves q).game) hmost
      obtain ⟨n, e, hn, hover, hrest⟩ := ih _ hless hgood (fun _ => hk) rfl
      have htick : l.tick fs saves = l.read fs saves q := by
        unfold Loop.tick
        rw [hs]
      refine ⟨n + 1, e, by omega, ?_, ?_⟩
      · rw [Function.iterate_succ_apply, htick]
        exact hover
      · rw [Function.iterate_succ_apply, htick, rest_read hs]
        exact hrest

end Loop

end Player

end Storyline
