import Reskin.Proofs.Reader.Recording

/-!
# What a recorder inserts is the tree of the file

A recorder knows of the statements in front of a token only by their numbers. What it has inserted
is said here from what the reader holds. At the end of a file that is the tree of its statements.

* **`Stage.addBelow`** — trees that are put below a node. **`Stage.closeScope_openScope`**: a scope
  that is opened, filled and closed is a tree.
* **`Reader.stage`**, **`Pending.nodes`** — what has to be inserted.
* **`Recorder.Agrees`** — it was. **`Agrees.follow`** is the step, **`Recording.agrees_run`** the
  run, and **`Recording.inserted_eq_of_finish`** the end.
* **`Recording.Maintains`** — what holds of the arena after every token, and
  **`Recording.run_maintains_arena`**, the headline: it does, and the arena is well formed after
  every single insertion.
-/

namespace Reskin

open Insertion

/-! ## Trees that are inserted -/

namespace Stage

/-- Puts sibling trees below a node. -/
def addBelow (stage : Stage) (parent : Nat) (nodes : List Node) : Stage :=
  { stage with inserted := graft stage.inserted parent nodes }

/-- Puts sibling trees below the innermost scope. -/
def add (stage : Stage) (nodes : List Node) : Stage :=
  stage.addBelow stage.parent nodes

variable (stage : Stage) (above : Nat) (kind : NodeKind)

@[simp] theorem add_nil : stage.add [] = stage := by
  rw [add, addBelow, graft_nil]

theorem addBelow_append (a b : List Node) :
    stage.addBelow above (a ++ b) = (stage.addBelow above a).addBelow above b := by
  rw [addBelow, graft_append]
  rfl

theorem add_append (a b : List Node) : stage.add (a ++ b) = (stage.add a).add b :=
  stage.addBelow_append stage.parent a b

/-- More children of a tree are put below its root. The number of the root is the one that was next
before the tree was inserted. -/
theorem addBelow_children (a b : List Node) :
    (stage.addBelow above [.branch kind a]).addBelow stage.next b
      = stage.addBelow above [.branch kind (a ++ b)] := by
  rw [addBelow, addBelow, addBelow, graft_branch_append]
  rfl

/-- Inserting a statement with its tokens is putting a tree with one leaf for each token. -/
theorem insertStatement_eq (tokens : List Token) :
    stage.insertStatement above kind tokens
      = stage.addBelow above [.branch kind (tokens.map .leaf)] := by
  rw [addBelow, graft_branch, graft_leaves, List.append_assoc]
  rfl

/-- A scope that was opened, filled and closed is a tree. While it is open its statements are put
below its number, as further children. -/
theorem closeScope_openScope (keyword : Token) (nodes : List Node) :
    ((stage.openScope above kind keyword).add nodes).closeScope
      = stage.addBelow above [.branch kind (.leaf keyword :: nodes)] := by
  have hopened : stage.addBelow above [.branch kind [.leaf keyword]]
      = stage.insertStatement above kind [keyword] :=
    (stage.insertStatement_eq above kind [keyword]).symm
  have hfilled := stage.addBelow_children above kind [.leaf keyword] nodes
  rw [List.singleton_append, hopened] at hfilled
  rw [← hfilled]
  rfl

end Stage

/-! ## What has to be inserted

The open scopes, the statements, and what of the pending statement is in the tree already. -/

/-- What was inserted up to the keyword of the innermost scope. -/
def Stage.ofScopes : List (Opener × List Statement) → Stage
  | [] => {}
  | (.forScope head keyword, before) :: outer =>
    let stage := (ofScopes outer).add (Statement.nodes before)
    (stage.add [(head.statement .missing).node]).openScope stage.next .forScope keyword
  | (opener, before) :: outer =>
    let stage := (ofScopes outer).add (Statement.nodes before)
    stage.openScope stage.parent opener.kind opener.keyword

/-- What was inserted in front of the pending statement of a reader. -/
def Reader.stage (reader : Reader) : Stage :=
  (Stage.ofScopes reader.scopes).add (Statement.nodes reader.current)

/-- What of a pending statement is in the tree. -/
def Pending.nodes : Pending → List Node
  | identifiers first rest => [(Statement.identifiers first rest).node]
  | block head | opening (.forScope head _) => [(head.statement .missing).node]
  | listing kind keyword body | mapAll kind keyword body _ =>
    [(Statement.listing kind keyword body none).node]
  | copyPairs keyword pairs | copySource keyword pairs _ | copyArrow keyword pairs _ _
  | copyNext keyword pairs => [(Statement.copy keyword pairs).node]
  | _ => []

/-- Whether the number `id` of a pending statement is kept where it is looked for. -/
def Pending.IsKept (id : Nat) (recorder : Recorder) : Pending → Prop
  | block _ | listing _ _ _ => recorder.lastClosed = some id
  | identifiers _ _ | opening (.forScope _ _) | mapAll _ _ _ _ | copyPairs _ _ | copySource _ _ _
  | copyArrow _ _ _ _ | copyNext _ _ => recorder.site = id
  | _ => True

theorem Statement.nodes_append (a b : List Statement) :
    Statement.nodes (a ++ b) = Statement.nodes a ++ Statement.nodes b := by
  rw [nodes_eq_map, nodes_eq_map, nodes_eq_map, List.map_append]

theorem AssignmentKind.node_statement (kind : AssignmentKind) (key equals value : Token) :
    (kind.statement ⟨key, equals, value⟩).node
      = .branch (kind.statement ⟨key, equals, value⟩).kind
        ((kind.tokens ++ [key, equals, value]).map .leaf) := by
  cases kind <;> rfl

/-- A `for` scope is the last child of its block. -/
theorem BlockHead.exists_node_statement (head : BlockHead) :
    ∃ kind children, ∀ uses : ForScope,
      (head.statement uses).node = .branch kind (children ++ uses.nodes) := by
  cases head with
  | matching keyword body => exact ⟨_, .leaf keyword :: Statement.nodes body, fun uses => rfl⟩
  | any keyword => exact ⟨_, [.leaf keyword], fun uses => rfl⟩

namespace Recorder

/-- Whether a recorder has inserted what a reader holds. -/
structure Agrees (recorder : Recorder) (reader : Reader) : Prop where
  stage : recorder.stage = reader.stage.add reader.pending.nodes
  kept : reader.pending.IsKept reader.stage.next recorder

variable {recorder : Recorder} {token : Token} {reader after : Reader} {base : Stage}
  {scopes : List (Opener × List Statement)} {current : List Statement}

theorem agrees_initial : Agrees {} {} :=
  ⟨rfl, trivial⟩

/-- A scope was opened. No statement was read in it, so its keyword is the last thing that was
inserted. -/
theorem agrees_enter (hstage : recorder.stage = Stage.ofScopes scopes) :
    recorder.Agrees ⟨scopes, [], .nothing⟩ :=
  ⟨by rw [hstage, Reader.stage, Statement.nodes, Stage.add_nil]; exact (Stage.add_nil _).symm,
    trivial⟩

/-- A statement was added: its tree was put below the innermost scope. -/
theorem agrees_concat {statement : Statement}
    (hbase : base = (Stage.ofScopes scopes).add (Statement.nodes current))
    (hstage : recorder.stage = base.add [statement.node]) :
    recorder.Agrees ⟨scopes, current ++ [statement], .nothing⟩ := by
  refine ⟨?_, trivial⟩
  rw [hstage, hbase, Reader.stage, Statement.nodes_append, Stage.add_append]
  exact (Stage.add_nil _).symm

theorem stage_insertStatement (recorder : Recorder) (kind : NodeKind) (tokens : List Token) :
    (recorder.insertStatement kind tokens).stage
      = recorder.stage.add [.branch kind (tokens.map .leaf)] :=
  recorder.stage.insertStatement_eq _ kind tokens

/-- What is put below the site becomes a child of the statement that was inserted last. -/
theorem stage_insertBelow {kind : NodeKind} {children : List Node}
    (hstage : recorder.stage = base.add [.branch kind children]) (hsite : recorder.site = base.next)
    (inner : NodeKind) (tokens : List Token) :
    (recorder.insertBelow inner tokens).stage
      = base.add [.branch kind (children ++ [.branch inner (tokens.map .leaf)])] := by
  rw [insertBelow, hstage, hsite, Stage.insertStatement_eq]
  exact base.addBelow_children _ kind children _

/-- A scope that is closed is a statement, or it is chained to one. In the second case the statement
was inserted before the scope was opened, and the scope becomes its last child. -/
theorem Agrees.leave (h : recorder.Agrees reader) (hpending : reader.pending = .nothing)
    (hleave : reader.leave token = .ok after) :
    Agrees { recorder with
      stage := recorder.stage.closeScope, lastClosed := recorder.stage.opened.head? } after := by
  obtain ⟨scopes, current, pending⟩ := reader
  subst hpending
  have hstage : recorder.stage = (Stage.ofScopes scopes).add (Statement.nodes current) :=
    h.stage.trans (Stage.add_nil _)
  cases scopes with
  | nil => cases hleave
  | cons scope outer =>
    obtain ⟨opener, before⟩ := scope
    let base := (Stage.ofScopes outer).add (Statement.nodes before)
    -- A scope that may be continued has nothing behind its statements yet.
    have hclosed : ∀ (kind : NodeKind) (keyword : Token),
        ((base.openScope base.parent kind keyword).add (Statement.nodes current)).closeScope
          = base.add [.branch kind (.leaf keyword :: (Statement.nodes current ++ []))] := by
      intro kind keyword
      rw [List.append_nil]
      exact base.closeScope_openScope base.parent kind keyword _
    cases opener with
    | matchBlock keyword =>
      cases hleave
      rw [hstage]
      exact ⟨hclosed .matchBlock keyword, rfl⟩
    | listing target keyword =>
      cases hleave
      rw [hstage]
      exact ⟨hclosed (.listing target) keyword, rfl⟩
    | forScope head keyword =>
      cases hleave
      rw [hstage]
      obtain ⟨kind, children, hnode⟩ := head.exists_node_statement
      have hblock : (head.statement .missing).node = .branch kind children := by
        rw [hnode, ForScope.nodes, List.append_nil]
      refine agrees_concat rfl (((base.add [(head.statement .missing).node]).closeScope_openScope
        base.next .forScope keyword _).trans ?_)
      rw [hblock, hnode]
      exact base.addBelow_children _ _ _ _

/-- The first token of a statement inserts nothing, but for `any`, which is a block by itself. -/
theorem Agrees.start (h : recorder.Agrees reader) (hpending : reader.pending = .nothing)
    (hstart : reader.start token = .ok after) : (recorder.start token).Agrees after := by
  obtain ⟨scopes, current, pending⟩ := reader
  subst hpending
  cases hkind : token.kind <;> simp only [Reader.start, hkind, reduceCtorEq] at hstart
  case rightBrace =>
    rw [Recorder.start, hkind]
    exact h.leave rfl hstart
  case anyKeyword =>
    cases hstart
    rw [Recorder.start, hkind]
    have hstage : recorder.stage = Reader.stage ⟨scopes, current, .nothing⟩ :=
      h.stage.trans (Stage.add_nil _)
    refine ⟨(recorder.stage_insertStatement .anyBlock [token]).trans ?_, ?_⟩
    · rw [hstage]
      rfl
    · rw [hstage]
      rfl
  all_goals
    cases hstart
    rw [Recorder.start, hkind]
    exact ⟨h.stage, trivial⟩

/-- A token that ends the pending statement is taken as if that statement had been inserted. Only a
list of one identifier was not inserted before. -/
theorem Agrees.exists_follow_eq {pending : Pending} (h : recorder.Agrees ⟨scopes, current, pending⟩)
    (hends : pending.EndsBefore (some token.kind)) :
    ∃ settled : Recorder, settled.Agrees ⟨scopes, current ++ pending.ended, .nothing⟩
      ∧ recorder.follow pending token = settled.start token := by
  cases pending with
  | nothing =>
    refine ⟨recorder, ?_, rfl⟩
    simpa only [Pending.ended, Pending.complete, List.append_nil] using h
  | identifier first =>
    have hstage : recorder.stage = Reader.stage ⟨scopes, current, .identifier first⟩ :=
      h.stage.trans (Stage.add_nil _)
    refine ⟨recorder.insertStatement .identifiers [first], agrees_concat rfl ?_, ?_⟩
    · rw [stage_insertStatement, hstage]
      rfl
    · rcases hends with hkind | hkind
      · simp [Recorder.follow, Option.some.inj hkind]
      · simp [Recorder.follow, Option.some.inj hkind]
  | identifiers first rest =>
    have hkind : token.kind ≠ .identifier := fun hk => hends (congrArg some hk)
    exact ⟨recorder, agrees_concat rfl h.stage, if_neg hkind⟩
  | block head =>
    have hkind : token.kind ≠ .forKeyword := fun hk => hends (congrArg some hk)
    exact ⟨recorder, agrees_concat rfl h.stage, if_neg hkind⟩
  | listing target keyword body =>
    have hkind : token.kind ≠ .equals := fun hk => hends (congrArg some hk)
    exact ⟨recorder, agrees_concat rfl h.stage, if_neg hkind⟩
  | _ => exact hends.elim

/-- **The step.** A recorder that follows the reader inserts what the reader takes. The cases are
the moves of the reader. -/
theorem Agrees.follow (h : recorder.Agrees reader) (hstep : reader.step token = .ok after) :
    (recorder.follow reader.pending token).Agrees after := by
  obtain ⟨scopes, current, pending⟩ := reader
  let base := (Stage.ofScopes scopes).add (Statement.nodes current)
  have hstage : recorder.stage = base.add pending.nodes := h.stage
  have hkept : pending.IsKept base.next recorder := h.kept
  -- Nothing of most statements is inserted before their last token was taken.
  have hbase : pending.nodes = [] → recorder.stage = base := fun hnil => by
    rw [hstage, hnil, Stage.add_nil]
  cases Reader.move_of_step hstep with
  | ends hends hstart =>
    obtain ⟨settled, hsettled, hfollow⟩ := h.exists_follow_eq hends
    exact hfollow ▸ hsettled.start rfl hstart
  | name hkind | equals hkind => exact ⟨hstage, trivial⟩
  | @value kind key equals hkind =>
    refine agrees_concat rfl ?_
    rw [Recorder.follow, stage_insertStatement, hbase rfl, AssignmentKind.node_statement]
  | @enter opener hkind =>
    refine agrees_enter ?_
    cases opener with
    | matchBlock keyword | listing target keyword =>
      rw [Recorder.follow, openScope, hbase rfl]
      · rfl
      · simp
    | forScope head keyword =>
      have hsite : recorder.site = base.next := hkept
      rw [Recorder.follow, openScope, hstage, hsite]
      rfl
  | @setAll target keyword hkind =>
    have hfollow : recorder.follow (.target target keyword) token = recorder :=
      if_neg (by simp [hkind])
    rw [hfollow]
    exact ⟨hstage, trivial⟩
  | @enterListing target keyword hkind =>
    refine agrees_enter ?_
    rw [Recorder.follow, if_pos hkind, openScope, hbase rfl]
    rfl
  | @predicate first hkind =>
    have hfollow : recorder.follow (.identifier first) token = recorder := by
      simp [Recorder.follow, hkind]
    rw [hfollow]
    exact ⟨hstage, trivial⟩
  | @second first hkind =>
    rw [Recorder.follow, if_pos hkind]
    refine ⟨?_, congrArg Stage.next (hbase rfl)⟩
    rw [insertSite, stage_insertStatement, hbase rfl]
    rfl
  | @further first rest hkind =>
    have hsite : recorder.site = base.next := hkept
    have hnode : (Statement.identifiers first (rest ++ [token])).node
        = .branch .identifiers ((first :: rest).map .leaf ++ [.leaf token]) := by
      rw [Statement.node, ← List.cons_append, List.map_append]
      rfl
    rw [Recorder.follow, if_pos hkind]
    refine ⟨?_, hsite⟩
    rw [Pending.nodes, hnode, insertLeaf, hstage, hsite]
    exact base.addBelow_children base.parent .identifiers ((first :: rest).map .leaf) [.leaf token]
  | uses hkind | mapAll hkind =>
    have hclosed : recorder.lastClosed = some base.next := hkept
    rw [Recorder.follow, if_pos hkind]
    exact ⟨hstage, by rw [reopen, hclosed]; rfl⟩
  | mapAllValue hkind =>
    refine agrees_concat rfl ((stage_insertBelow hstage hkept _ _).trans ?_)
    rw [Option.map_none, Option.toList_none, List.append_nil]
    rfl
  | enterCopy hkind =>
    refine ⟨?_, congrArg Stage.next (hbase rfl)⟩
    rw [Recorder.follow, insertSite, stage_insertStatement, hbase rfl]
    rfl
  | copySource hkind | copyArrow hkind | copyComma hkind => exact ⟨hstage, hkept⟩
  | copyDestination hkind =>
    refine ⟨(stage_insertBelow hstage hkept _ _).trans ?_, hkept⟩
    rw [Pending.nodes, Statement.node, List.map_append]
    rfl
  | leaveCopy hkind | leaveCopyPair hkind => exact agrees_concat rfl hstage

end Recorder

/-- A recording that starts with nothing has inserted what its reader holds after every token. -/
theorem Recording.agrees_run {recording : Recording} {tokens : List Token}
    (h : Recording.run {} tokens = .ok recording) :
    recording.recorder.Agrees recording.reader :=
  run_induction (motive := fun recording => recording.recorder.Agrees recording.reader) h
    Recorder.agrees_initial fun _ _ _ _ hagrees hstep => hagrees.follow hstep

/-! ## The end of a file -/

theorem Pending.nodes_ended {pending : Pending} (h : pending.EndsBefore none) :
    Statement.nodes pending.ended = pending.nodes := by
  cases pending with
  | identifier first => rcases h with h | h <;> cases h
  | nothing | identifiers first rest | block head | listing target keyword body => rfl
  | _ => exact h.elim

namespace Recording

/-- At the end of a file its whole tree was inserted: no scope is open, and the pending statement
was inserted as it is. -/
theorem inserted_eq_of_finish {recording : Recording}
    (h : recording.recorder.Agrees recording.reader) {last : Option Token}
    {statements : List Statement} (hfinish : recording.reader.finish last = .ok statements) :
    recording.recorder.stage.inserted = Node.insertionsAll 0 1 (Statement.nodes statements) := by
  obtain ⟨hscopes, hends⟩ := Reader.finish_eq_ok hfinish
  rw [h.stage, Reader.stage, hscopes, ← Pending.nodes_ended hends, ← Stage.add_append,
    ← Statement.nodes_append, Reader.statements_of_finish hfinish]
  rfl

end Recording

/-! ## Scopes and what was closed -/

namespace Stage

/-- Whether every open scope was inserted with its kind, and its keyword right behind it. -/
def HasKeywords (stage : Stage) (scopes : List (Opener × List Statement)) : Prop :=
  List.Forall₂
    (fun id scope => ∃ n parent, id = n + 1
      ∧ stage.inserted[n]? = some (.branch scope.1.kind parent)
      ∧ stage.inserted[n + 1]? = some (.leaf scope.1.keyword (n + 1)))
    stage.opened scopes

variable {stage : Stage} {scopes : List (Opener × List Statement)}

/-- More insertions keep the keywords, since they are put behind those that were there. -/
theorem HasKeywords.grow (h : stage.HasKeywords scopes) (more : List Insertion) :
    HasKeywords { stage with inserted := stage.inserted ++ more } scopes := by
  refine List.Forall₂.imp ?_ h
  rintro id scope ⟨n, parent, hid, hscope, hkeyword⟩
  have hlt : n + 1 < stage.inserted.length := (List.getElem?_eq_some_iff.mp hkeyword).1
  exact ⟨n, parent, hid, by rw [List.getElem?_append_left (by omega), hscope],
    by rw [List.getElem?_append_left hlt, hkeyword]⟩

theorem HasKeywords.openScope (h : stage.HasKeywords scopes) (above : Nat) (opener : Opener)
    (before : List Statement) :
    (stage.openScope above opener.kind opener.keyword).HasKeywords ((opener, before) :: scopes) :=
  .cons ⟨stage.inserted.length, above, rfl, by simp [Stage.openScope, insertStatement],
    by simp [Stage.openScope, insertStatement, next]⟩ (h.grow _)

/-- Every open scope has its keyword, by induction on the open scopes. -/
theorem hasKeywords_ofScopes (scopes : List (Opener × List Statement)) :
    (ofScopes scopes).HasKeywords scopes := by
  induction scopes with
  | nil => exact .nil
  | cons scope outer ih =>
    obtain ⟨opener, before⟩ := scope
    cases opener with
    | forScope head keyword =>
      exact ((ih.grow _).grow _).openScope _ (.forScope head keyword) before
    | matchBlock keyword => exact (ih.grow _).openScope _ (.matchBlock keyword) before
    | listing target keyword => exact (ih.grow _).openScope _ (.listing target keyword) before

end Stage

/-- The statement that was closed by the last token, if it may still be continued. -/
def Pending.closed? : Pending → Option Statement
  | block head => some (head.statement .missing)
  | listing kind keyword body => some (.listing kind keyword body none)
  | _ => none

namespace Recorder.Agrees

variable {recorder : Recorder} {reader : Reader}

/-- The keywords of the open scopes are those that the reader keeps. -/
theorem hasKeywords (h : recorder.Agrees reader) : recorder.stage.HasKeywords reader.scopes := by
  rw [h.stage]
  exact ((Stage.hasKeywords_ofScopes reader.scopes).grow _).grow _

/-- What was closed is the statement that the reader keeps, inserted as a node of its kind. -/
theorem exists_closed (h : recorder.Agrees reader) {statement : Statement}
    (hclosed : reader.pending.closed? = some statement) :
    ∃ n parent, recorder.lastClosed = some (n + 1)
      ∧ recorder.stage.inserted[n]? = some (statement.node.insertion parent) := by
  obtain ⟨scopes, current, pending⟩ := reader
  have hinserted : ∀ base : Stage, (base.add [statement.node]).inserted[base.inserted.length]?
      = some (statement.node.insertion base.parent) := fun base => by
    simp [Stage.add, Stage.addBelow, graft, Node.insertionsAll_cons]
  cases pending with
  | block head | listing target keyword body =>
    cases hclosed
    exact ⟨_, _, h.kept, h.stage ▸ hinserted _⟩
  | _ => cases hclosed

end Recorder.Agrees

/-! ## The arena of a recording -/

namespace Recording

open Arena

/-- What holds of the arena of a recording after every token that was taken. -/
structure Maintains {arena : Arena} (recording : Recording) (hwell : arena.IsWellFormed) :
    Prop where
  /-- What was inserted is what the reader holds. -/
  held : recording.recorder.stage = recording.reader.stage.add recording.reader.pending.nodes
  /-- Every node without a token but the root has a first child, and so a first token. -/
  first : ∀ id : Fin arena.size, 0 < id.val → (arena.get id).token = none →
    (arena.get id).children.head? = some (id.val + 1) ∧ (hwell.firstToken? id).isSome
  /-- The open scopes are nodes without a token, and start with their keywords. -/
  opened : List.Forall₂
    (fun id scope => (∃ cell, arena.get? id = some cell ∧ cell.token = none
        ∧ cell.kind = scope.1.kind)
      ∧ hwell.firstTokenAt? id = some scope.1.keyword)
    recording.recorder.stage.opened recording.reader.scopes
  /-- What was closed is a node without a token. -/
  lastClosed : ∀ id ∈ recording.recorder.lastClosed,
    ∃ cell, arena.get? id = some cell ∧ cell.token = none
  /-- What was closed and may be continued has the kind of the statement that the reader keeps. -/
  closed : ∀ statement ∈ recording.reader.pending.closed?, ∃ id ∈ recording.recorder.lastClosed,
    ∃ cell, arena.get? id = some cell ∧ cell.kind = statement.kind
  /-- At the end of the file the arena is the table of its tree. -/
  finished : ∀ last statements, recording.reader.finish last = .ok statements →
    arena.cells = (Node.ofFile statements).rows.map Node.Row.cell
      ∧ ∀ row ∈ (Node.ofFile statements).rows,
        hwell.firstTokenAt? row.id = row.node.firstToken?

variable {recording : Recording} {arena : Arena}

/-- The arena of what was inserted is as `Maintains` says. What the invariants of the recorder say
about numbers is said about the cells with these numbers here. -/
theorem maintains_of_build? (hsound : recording.recorder.IsSound)
    (hagrees : recording.recorder.Agrees recording.reader)
    (hbuild : build? recording.recorder.stage.inserted = some arena) (hwell : arena.IsWellFormed)
    (hrecords : arena.Records recording.recorder.stage.inserted) : recording.Maintains hwell := by
  have hcomplete := hsound.stage.inserted
  refine ⟨hagrees.stage, ?_, ?_, ?_, ?_, ?_⟩
  · rintro ⟨id, hid⟩ hpos htoken
    obtain ⟨n, rfl⟩ := Nat.exists_eq_add_one.mpr hpos
    obtain ⟨hfirst, token, hstart⟩ := hrecords.exists_firstTokenAt? hwell hcomplete
      (arena.get?_eq ⟨n + 1, hid⟩) htoken
    rw [hwell.firstTokenAt?_of_lt hid] at hstart
    exact ⟨hfirst, Option.isSome_iff_exists.mpr ⟨token, hstart⟩⟩
  · refine List.Forall₂.imp ?_ hagrees.hasKeywords
    rintro id scope ⟨n, parent, rfl, hscope, hkeyword⟩
    obtain ⟨children, hcell⟩ := hrecords.cell n _ hscope
    exact ⟨⟨_, hcell, rfl, rfl⟩,
      hrecords.firstTokenAt?_eq hwell hcomplete.toAreOrderly hcell rfl hkeyword⟩
  · exact fun id hid => hrecords.exists_of_hasBranch hwell (hsound.lastClosed id hid)
  · intro statement hstatement
    obtain ⟨n, parent, hclosed, hinserted⟩ := hagrees.exists_closed hstatement
    obtain ⟨children, hcell⟩ := hrecords.cell n _ hinserted
    refine ⟨n + 1, hclosed, _, hcell, ?_⟩
    rw [Node.cell_insertion]
    exact statement.kind_node
  · intro last statements hfinish
    rw [inserted_eq_of_finish hagrees hfinish, Node.build?_insertionsAll] at hbuild
    cases hbuild
    exact ⟨rfl, fun row hrow => Node.firstTokenAt?_id hwell hrow⟩

/-- **The arena of a file is well formed while it is read.** The tokens may be the beginning of any
list of tokens, as far as the reader takes them. After every insertion the arena is there and well
formed, nodes have tokens just if they were inserted as leaves, and every node without a token but
the root and the last one has its first child. After every token the arena holds what the reader
does, no node but the root lacks its first child, so that a walk down from it finds a token, the
numbers that are kept are those of nodes without a token, and no walk goes on forever. When the file
is over, the arena is the table of its tree. -/
theorem run_maintains_arena (tokens : List Token) (reader : Reader)
    (h : Reader.run {} tokens = .ok reader) :
    ∃ recording, run {} tokens = .ok recording ∧ recording.reader = reader
      ∧ (∀ n, ∃ arena, IsArenaOf arena (recording.recorder.stage.inserted.take n))
      ∧ ∃ arena, ∃ hwell : arena.IsWellFormed,
        build? recording.recorder.stage.inserted = some arena ∧ recording.Maintains hwell
          ∧ WellFounded fun number id =>
            ∃ cell, arena.get? id = some cell ∧ number ∈ cell.children := by
  have hreader := map_reader_run {} tokens
  rw [h] at hreader
  cases hrun : run {} tokens with
  | error diagnostic =>
    rw [hrun] at hreader
    cases hreader
  | ok recording =>
    rw [hrun] at hreader
    have hsound := isSound_run hrun
    have horderly := hsound.stage.inserted.toAreOrderly
    obtain ⟨arena, hbuild, hwell, hrecords⟩ := exists_build? horderly
    exact ⟨recording, rfl, Except.ok.inj hreader, fun n => exists_isArenaOf (horderly.take n),
      arena, hwell, hbuild, maintains_of_build? hsound (agrees_run hrun) hbuild hwell hrecords,
      hwell.wellFounded_child⟩

/-- A listing inside of a `for` scope that is still open. The listing may still be continued. -/
def openScopeWithListing : List Token :=
  ["any", "for", "\x7b", "items", "\x7b", "a", "b", "\x7d"].zipIdx.map fun (text, column) =>
    ⟨text, 0, column, none⟩

theorem run_maintains_arena_openScopeWithListing :
    ∃ recording, run {} openScopeWithListing = .ok recording
      ∧ recording.recorder.stage.opened = [3] ∧ recording.recorder.lastClosed = some 5
      ∧ ∃ arena, ∃ hwell : arena.IsWellFormed,
        build? recording.recorder.stage.inserted = some arena
          ∧ (∃ cell, arena.get? 5 = some cell ∧ cell.token = none)
          ∧ ∃ keyword, hwell.firstTokenAt? 3 = some keyword := by
  have htaken : (Reader.run {} openScopeWithListing).isOk = true := by decide +kernel
  have hkept : (run {} openScopeWithListing).toOption.map
      (fun recording => (recording.recorder.stage.opened, recording.recorder.lastClosed))
        = some ([3], some 5) := by
    decide +kernel
  cases hreader : Reader.run {} openScopeWithListing with
  | error diagnostic =>
    rw [hreader] at htaken
    cases htaken
  | ok reader =>
    obtain ⟨recording, hrun, -, -, arena, hwell, hbuild, hmaintains, -⟩ :=
      run_maintains_arena openScopeWithListing reader hreader
    rw [hrun] at hkept
    obtain ⟨hopened, hclosed⟩ := Prod.mk.inj (Option.some.inj hkept)
    have hkeywords := hmaintains.opened
    rw [hopened] at hkeywords
    obtain ⟨scope, outer, ⟨-, hkeyword⟩, -, -⟩ := List.forall₂_cons_left_iff.mp hkeywords
    exact ⟨recording, hrun, hopened, hclosed, arena, hwell, hbuild,
      hmaintains.lastClosed 5 hclosed, _, hkeyword⟩

end Recording

end Reskin
