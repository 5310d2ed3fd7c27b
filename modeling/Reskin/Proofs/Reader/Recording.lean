import Reskin.Proofs.Reader.Tokens
import Reskin.Proofs.Statement.Numbering

/-!
# The arena of a file that is being read

The reader keeps statements, and the tree of a file is made of them when all is read. A `Recorder`
goes along with the reader and puts the nodes into an arena as the tokens come. It keeps numbers
where the reader keeps statements: of the scopes that are open, of what the last token closed, and
of the node that the pending statement goes on below. Most statements are inserted when their last
token was taken, and scopes when they are opened. What is chained to a scope is inserted below it
after it was closed.

* **`Recorder.follow`** — what is inserted at a token; **`Recording.run`** — the reader with the
  recorder. **`Recording.map_reader_run`**: the recorder changes nothing about what is read.
* **`Recorder.IsSound`** — whatever number is kept is that of a node without a token, and nodes are
  put below such nodes only. **`IsSound.follow`** is the step, **`Recording.isSound_run`** the run.
-/

namespace Reskin

open Insertion

/-! ## Insertions and open scopes -/

/-- What was inserted, and the numbers of the scopes that are open, innermost first. -/
structure Stage where
  inserted : List Insertion := []
  opened : List Nat := []

namespace Stage

/-- The number that the next node gets. -/
def next (stage : Stage) : Nat :=
  stage.inserted.length + 1

/-- The node that statements are put below: the innermost open scope, or the root. -/
def parent (stage : Stage) : Nat :=
  stage.opened.headD 0

/-- Puts a leaf below a node. -/
def insertLeaf (stage : Stage) (parent : Nat) (token : Token) : Stage :=
  { stage with inserted := stage.inserted ++ [.leaf token parent] }

/-- Puts a node without a token below a node, and below the new one a leaf for each token. -/
def insertStatement (stage : Stage) (parent : Nat) (kind : NodeKind) (tokens : List Token) :
    Stage :=
  { stage with
    inserted := stage.inserted ++ .branch kind parent :: tokens.map fun token =>
      .leaf token stage.next }

/-- Opens a scope below a node. Its first child is its keyword. -/
def openScope (stage : Stage) (parent : Nat) (kind : NodeKind) (keyword : Token) : Stage :=
  { stage.insertStatement parent kind [keyword] with opened := stage.next :: stage.opened }

def closeScope (stage : Stage) : Stage :=
  { stage with opened := stage.opened.tail }

end Stage

/-- The kind of the node of a scope. -/
def Opener.kind : Opener → NodeKind
  | matchBlock _ => .matchBlock
  | forScope _ _ => .forScope
  | listing target _ => .listing target

/-- What is kept about an arena while a file is read. -/
structure Recorder where
  stage : Stage := {}
  /-- The block or scope that was closed by the last token. -/
  lastClosed : Option Nat := none
  /-- The node that the pending statement goes on below, if it is not the innermost scope. -/
  site : Nat := 0

namespace Recorder

/-- Puts a statement below the innermost scope. -/
def insertStatement (recorder : Recorder) (kind : NodeKind) (tokens : List Token) : Recorder :=
  { recorder with stage := recorder.stage.insertStatement recorder.stage.parent kind tokens }

/-- Puts a statement below the innermost scope, and goes on below it. -/
def insertSite (recorder : Recorder) (kind : NodeKind) (tokens : List Token) : Recorder :=
  { recorder.insertStatement kind tokens with site := recorder.stage.next }

/-- Puts a statement below the site. -/
def insertBelow (recorder : Recorder) (kind : NodeKind) (tokens : List Token) : Recorder :=
  { recorder with stage := recorder.stage.insertStatement recorder.site kind tokens }

/-- Puts a leaf below the site. -/
def insertLeaf (recorder : Recorder) (token : Token) : Recorder :=
  { recorder with stage := recorder.stage.insertLeaf recorder.site token }

/-- Opens a scope below a node. -/
def openScope (recorder : Recorder) (parent : Nat) (kind : NodeKind) (keyword : Token) : Recorder :=
  { recorder with stage := recorder.stage.openScope parent kind keyword }

/-- Goes on below the block or scope that was closed. -/
def reopen (recorder : Recorder) : Recorder :=
  { recorder with site := recorder.lastClosed.getD 0, lastClosed := none }

/-- Takes the first token of a statement. -/
def start (recorder : Recorder) (token : Token) : Recorder :=
  match token.kind with
  | .anyKeyword =>
    { recorder.insertStatement .anyBlock [token] with lastClosed := some recorder.stage.next }
  | .rightBrace =>
    { recorder with
      stage := recorder.stage.closeScope, lastClosed := recorder.stage.opened.head? }
  | _ => { recorder with lastClosed := none }

/-- Follows the reader over a token that it takes, and inserts what the token completes. A list of
one identifier is inserted when the token after it is taken, not when that token is looked at: only
then is it known to be a list and not the key of an entry. No node comes in between, so the arena is
the same. -/
def follow (recorder : Recorder) (pending : Pending) (token : Token) : Recorder :=
  match pending with
  | .nothing => recorder.start token
  | .definition _ _ | .key _ _ => recorder
  | .equals kind key equals =>
    recorder.insertStatement (kind.statement ⟨key, equals, token⟩).kind
      (kind.tokens ++ [key, equals, token])
  | .opening (.forScope _ keyword) => recorder.openScope recorder.site .forScope keyword
  | .opening opener => recorder.openScope recorder.stage.parent opener.kind opener.keyword
  | .target target keyword =>
    if token.kind = .leftBrace then
      recorder.openScope recorder.stage.parent (.listing target) keyword
    else recorder
  | .identifier first =>
    if token.kind = .identifier then recorder.insertSite .identifiers [first, token]
    else if token.kind = .equals then recorder
    else (recorder.insertStatement .identifiers [first]).start token
  | .identifiers _ _ =>
    if token.kind = .identifier then recorder.insertLeaf token else recorder.start token
  | .block _ => if token.kind = .forKeyword then recorder.reopen else recorder.start token
  | .listing _ _ _ => if token.kind = .equals then recorder.reopen else recorder.start token
  | .mapAll _ _ _ equals => recorder.insertBelow .mapAll [equals, token]
  | .copy keyword => recorder.insertSite .copy [keyword]
  | .copyPairs _ _ | .copySource _ _ _ | .copyNext _ _ => recorder
  | .copyArrow _ _ source arrow => recorder.insertBelow .copyPair [source, arrow, token]

end Recorder

/-- A reader and the recorder that goes along with it. -/
structure Recording where
  reader : Reader := {}
  recorder : Recorder := {}

namespace Recording

def step (recording : Recording) (token : Token) : Except Diagnostic Recording :=
  (recording.reader.step token).map fun next =>
    ⟨next, recording.recorder.follow recording.reader.pending token⟩

def run (recording : Recording) : List Token → Except Diagnostic Recording
  | [] => .ok recording
  | token :: tokens =>
    match recording.step token with
    | .ok next => next.run tokens
    | .error diagnostic => .error diagnostic

/-- What is read does not depend on the recorder: it only follows. So whatever is known about runs
of the reader holds of recordings. -/
theorem map_reader_run (recording : Recording) (tokens : List Token) :
    (recording.run tokens).map reader = recording.reader.run tokens := by
  induction tokens generalizing recording with
  | nil => rfl
  | cons token tokens ih =>
    rw [run, step, Reader.run]
    cases recording.reader.step token with
    | error diagnostic => rfl
    | ok next => exact ih _

/-- What every step keeps is kept by a run. Each invariant of recordings is proved with this from
its own step. -/
theorem run_induction {motive : Recording → Prop} {recording after : Recording}
    {tokens : List Token} (hrun : recording.run tokens = .ok after) (h : motive recording)
    (step : ∀ reader recorder token next, motive ⟨reader, recorder⟩ →
      reader.step token = .ok next → motive ⟨next, recorder.follow reader.pending token⟩) :
    motive after := by
  induction tokens generalizing recording with
  | nil =>
    cases hrun
    exact h
  | cons token tokens ih =>
    obtain ⟨reader, recorder⟩ := recording
    rw [run, Recording.step] at hrun
    cases hstep : reader.step token with
    | error diagnostic =>
      rw [hstep] at hrun
      cases hrun
    | ok next =>
      rw [hstep] at hrun
      exact ih hrun (step reader recorder token next h hstep)

end Recording

/-! ## Insertions in order -/

namespace Stage

/-- Whether all insertions are in order, and open scopes are nodes without a token. -/
structure IsSound (stage : Stage) : Prop where
  inserted : AreComplete stage.inserted
  opened : ∀ id ∈ stage.opened, HasBranch stage.inserted id

variable {stage : Stage} {above : Nat}

theorem hasBranch_insertStatement (kind : NodeKind) (tokens : List Token) :
    HasBranch (stage.insertStatement above kind tokens).inserted stage.next :=
  ⟨kind, above, by simp [insertStatement]⟩

namespace IsSound

theorem parent (h : stage.IsSound) : HasBranch stage.inserted stage.parent := by
  rw [Stage.parent]
  cases hopened : stage.opened with
  | nil => trivial
  | cons innermost outer => exact h.opened innermost (by simp [hopened])

theorem insertLeaf (h : stage.IsSound) (habove : HasBranch stage.inserted above) (token : Token) :
    (stage.insertLeaf above token).IsSound :=
  ⟨h.inserted.leaves habove [token], fun id hid => (h.opened id hid).append _⟩

theorem insertStatement (h : stage.IsSound) (habove : HasBranch stage.inserted above)
    (kind : NodeKind) {tokens : List Token} (htokens : tokens ≠ []) :
    (stage.insertStatement above kind tokens).IsSound :=
  ⟨h.inserted.statement habove kind htokens, fun id hid => (h.opened id hid).append _⟩

theorem openScope (h : stage.IsSound) (habove : HasBranch stage.inserted above)
    (kind : NodeKind) (keyword : Token) : (stage.openScope above kind keyword).IsSound := by
  have hinserted := h.insertStatement habove kind (List.cons_ne_nil keyword [])
  exact ⟨hinserted.inserted,
    List.forall_mem_cons.mpr ⟨hasBranch_insertStatement kind [keyword], hinserted.opened⟩⟩

theorem closeScope (h : stage.IsSound) : stage.closeScope.IsSound :=
  ⟨h.inserted, fun id hid => h.opened id (List.mem_of_mem_tail hid)⟩

end IsSound

end Stage

namespace Recorder

/-- Whether all numbers that a recorder keeps are numbers of nodes without a token. -/
structure IsSound (recorder : Recorder) : Prop where
  stage : recorder.stage.IsSound
  lastClosed : ∀ id ∈ recorder.lastClosed, HasBranch recorder.stage.inserted id
  site : HasBranch recorder.stage.inserted recorder.site

theorem isSound_initial : IsSound {} :=
  ⟨⟨areComplete_nil, List.forall_mem_nil _⟩, fun id hid => absurd hid (Option.not_mem_none id),
    trivial⟩

namespace IsSound

variable {recorder : Recorder}

/-- More insertions keep the numbers, as nodes are only ever added and never change their kind. -/
theorem grow (h : recorder.IsSound) {stage : Stage} (hstage : stage.IsSound)
    (hgrow : recorder.stage.inserted <+: stage.inserted) :
    IsSound { recorder with stage := stage } := by
  obtain ⟨more, hmore⟩ := hgrow
  have hkeep : ∀ id, HasBranch recorder.stage.inserted id → HasBranch stage.inserted id :=
    fun id hid => hmore ▸ hid.append more
  exact ⟨hstage, fun id hid => hkeep id (h.lastClosed id hid), hkeep _ h.site⟩

theorem insertStatement (h : recorder.IsSound) (kind : NodeKind) {tokens : List Token}
    (htokens : tokens ≠ []) : (recorder.insertStatement kind tokens).IsSound :=
  h.grow (h.stage.insertStatement h.stage.parent kind htokens) (List.prefix_append _ _)

theorem insertSite (h : recorder.IsSound) (kind : NodeKind) {tokens : List Token}
    (htokens : tokens ≠ []) : (recorder.insertSite kind tokens).IsSound := by
  have hinserted := h.insertStatement kind htokens
  exact ⟨hinserted.stage, hinserted.lastClosed, Stage.hasBranch_insertStatement kind tokens⟩

theorem insertBelow (h : recorder.IsSound) (kind : NodeKind) {tokens : List Token}
    (htokens : tokens ≠ []) : (recorder.insertBelow kind tokens).IsSound :=
  h.grow (h.stage.insertStatement h.site kind htokens) (List.prefix_append _ _)

theorem insertLeaf (h : recorder.IsSound) (token : Token) : (recorder.insertLeaf token).IsSound :=
  h.grow (h.stage.insertLeaf h.site token) (List.prefix_append _ _)

theorem openScope (h : recorder.IsSound) {above : Nat}
    (habove : HasBranch recorder.stage.inserted above) (kind : NodeKind) (keyword : Token) :
    (recorder.openScope above kind keyword).IsSound :=
  h.grow (h.stage.openScope habove kind keyword) (List.prefix_append _ _)

theorem reopen (h : recorder.IsSound) : recorder.reopen.IsSound := by
  refine ⟨h.stage, fun id hid => absurd hid (Option.not_mem_none id), ?_⟩
  rw [Recorder.reopen]
  cases hclosed : recorder.lastClosed with
  | none => trivial
  | some id => exact h.lastClosed id hclosed

theorem start (h : recorder.IsSound) (token : Token) : (recorder.start token).IsSound := by
  rw [Recorder.start]
  split
  · have hinserted := h.insertStatement .anyBlock (List.cons_ne_nil token [])
    refine ⟨hinserted.stage, ?_, hinserted.site⟩
    rintro id ⟨rfl⟩
    exact Stage.hasBranch_insertStatement .anyBlock [token]
  · exact ⟨h.stage.closeScope, fun id hid => h.stage.opened id (List.mem_of_mem_head? hid), h.site⟩
  · exact ⟨h.stage, fun id hid => absurd hid (Option.not_mem_none id), h.site⟩

/-- **The step.** Whatever a token completes, it is put below nodes without a token: the innermost
scope, the site, or a node that was just inserted. -/
theorem follow (h : recorder.IsSound) (pending : Pending) (token : Token) :
    (recorder.follow pending token).IsSound := by
  rw [Recorder.follow.eq_def]
  cases pending with
  | nothing => exact h.start token
  | equals kind key equals => exact h.insertStatement _ (by simp)
  | opening opener =>
    cases opener with
    | forScope head keyword => exact h.openScope h.site _ _
    | matchBlock keyword | listing target keyword => exact h.openScope h.stage.parent _ _
  | target target keyword =>
    dsimp only
    split
    · exact h.openScope h.stage.parent _ _
    · exact h
  | identifier first =>
    dsimp only
    split
    · exact h.insertSite _ (List.cons_ne_nil _ _)
    · split
      · exact h
      · exact (h.insertStatement _ (List.cons_ne_nil _ _)).start token
  | identifiers first rest =>
    dsimp only
    split
    · exact h.insertLeaf token
    · exact h.start token
  | block head | listing target keyword body =>
    dsimp only
    split
    · exact h.reopen
    · exact h.start token
  | mapAll target keyword body equals => exact h.insertBelow _ (List.cons_ne_nil _ _)
  | copy keyword => exact h.insertSite _ (List.cons_ne_nil _ _)
  | copyArrow keyword pairs source arrow => exact h.insertBelow _ (List.cons_ne_nil _ _)
  | definition scope keyword | key kind key | copyPairs keyword pairs
  | copySource keyword pairs source | copyNext keyword pairs => exact h

end IsSound

end Recorder

/-- A recording that starts with nothing is sound after every token. -/
theorem Recording.isSound_run {recording : Recording} {tokens : List Token}
    (h : Recording.run {} tokens = .ok recording) : recording.recorder.IsSound :=
  run_induction (motive := fun recording => recording.recorder.IsSound) h Recorder.isSound_initial
    fun reader _ token _ hsound _ => hsound.follow reader.pending token

end Reskin
