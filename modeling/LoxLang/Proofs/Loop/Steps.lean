import LoxLang.Proofs.Loop.Worlds
import LoxLang.Proofs.Run.Binding

/-!
# Steps of two runs

Machines that correspond take steps that correspond: the same part is evaluated or executed in
environments that correspond, and the frames wait for the same.  A scope that is left out has no
effect on any step, since the distances with which the code of the second run goes out have been
found without it.
-/

namespace LoxLang

/-! ## Machines that correspond -/

inductive Completion.Like (p : Pairing) : Completion → Completion → Prop
  | normal : Like p .normal .normal
  | returned {value value' : Value} :
      value.Like p value' → Like p (.returned value) (.returned value')

/-- Frames that wait in the environment of the part that they wait for. -/
inductive Frame.Like (p : Pairing) (idle : Option Nat) : Frame → Frame → Prop
  | unary (operator : Token) : Like p idle (.unary operator) (.unary operator)
  | binaryLeft (operator : Token) {right right' : Expr} : right.Like p idle right' →
      Like p idle (.binaryLeft operator right) (.binaryLeft operator right')
  | binaryRight (operator : Token) {left left' : Value} : left.Like p left' →
      Like p idle (.binaryRight operator left) (.binaryRight operator left')
  | logical (operator : Token) {right right' : Expr} : right.Like p idle right' →
      Like p idle (.logical operator right) (.logical operator right')
  | assign {target target' : Occurrence} : target.Like p idle target' →
      Like p idle (.assign target) (.assign target')
  | callee (paren : Token) {arguments arguments' : List Expr} :
      Expr.LikeAll p idle arguments arguments' →
      Like p idle (.callee paren arguments) (.callee paren arguments')
  | argument (paren : Token) {callee callee' : Value} {done done' : List Value}
      {rest rest' : List Expr} : callee.Like p callee' → List.Forall₂ (Value.Like p) done done' →
      Expr.LikeAll p idle rest rest' →
      Like p idle (.argument paren callee done rest) (.argument paren callee' done' rest')
  | get (name : Token) : Like p idle (.get name) (.get name)
  | setObject (name : Token) {value value' : Expr} : value.Like p idle value' →
      Like p idle (.setObject name value) (.setObject name value')
  | setValue (name : Token) {object object' : Instance} : object.Like p object' →
      Like p idle (.setValue name object) (.setValue name object')
  | expression : Like p idle .expression .expression
  | print : Like p idle .print .print
  | define (name : Token) : idle ≠ some 0 → Like p idle (.define name) (.define name)
  | choice {thenBranch thenBranch' : Stmt} {elseBranch elseBranch' : Option Stmt} :
      thenBranch.Like p idle thenBranch' → Option.Rel (Stmt.Like p idle) elseBranch elseBranch' →
      Like p idle (.choice thenBranch elseBranch) (.choice thenBranch' elseBranch')
  | loopTest {condition condition' : Expr} {body body' : Stmt} : condition.Like p idle condition' →
      body.Like p idle body' → Like p idle (.loopTest condition body) (.loopTest condition' body')
  | loopBody {condition condition' : Expr} {body body' : Stmt} : condition.Like p idle condition' →
      body.Like p idle body' → Like p idle (.loopBody condition body) (.loopBody condition' body')
  | returning : Like p idle .returning .returning
  | sequence {rest rest' : List Stmt} : Stmt.LikeAll p idle rest rest' →
      Like p idle (.sequence rest) (.sequence rest')

/-- Frames one behind the other.  Those behind a block run or a call wait in the environment around
it. -/
inductive Frame.LikeAll (p : Pairing) : Option Nat → List Frame → List Frame → Prop
  | nil {idle : Option Nat} : LikeAll p idle [] []
  | cons {idle : Option Nat} {frame frame' : Frame} {frames frames' : List Frame} :
      frame.Like p idle frame' → LikeAll p idle frames frames' →
      LikeAll p idle (frame :: frames) (frame' :: frames')
  | block {idle around : Option Nat} {outer outer' : Env} {frames frames' : List Frame} :
      Env.Skips p around outer outer' → LikeAll p around frames frames' →
      LikeAll p idle (.block outer :: frames) (.block outer' :: frames')
  | activation {idle around : Option Nat} {caller caller' : Env} {callee callee' : Closure}
      {made made' : Option Instance} {frames frames' : List Frame} :
      Env.Skips p around caller caller' → callee.Like p callee' →
      Option.Rel (Instance.Like p) made made' → LikeAll p around frames frames' →
      LikeAll p idle (.activation ⟨caller, callee, made⟩ :: frames)
        (.activation ⟨caller', callee', made'⟩ :: frames')

inductive Control.Like (p : Pairing) (idle : Option Nat) : Control → Control → Prop
  | evaluate {expression expression' : Expr} : expression.Like p idle expression' →
      Like p idle (.evaluate expression) (.evaluate expression')
  | execute {statement statement' : Stmt} : statement.Like p idle statement' →
      Like p idle (.execute statement) (.execute statement')
  | run {statements statements' : List Stmt} : Stmt.LikeAll p idle statements statements' →
      Like p idle (.run statements) (.run statements')
  | value {result result' : Value} : result.Like p result' →
      Like p idle (.value result) (.value result')
  | completed {completion completion' : Completion} : completion.Like p completion' →
      Like p idle (.completed completion) (.completed completion')
  | failed (failure : Failure) : Like p idle (.failed failure) (.failed failure)

namespace Machine

/-- Machines that correspond, apart from what they are to do next. -/
structure Around (p : Pairing) (idle : Option Nat) (machine machine' : Machine) : Prop where
  frames : Frame.LikeAll p idle machine.frames machine'.frames
  env : Env.Skips p idle machine.env machine'.env
  depth : machine'.depth = machine.depth
  world : machine.world.Like p machine'.world

/-- Machines that correspond. -/
inductive Like (p : Pairing) (machine machine' : Machine) : Prop
  | mk {idle : Option Nat} : Around p idle machine machine' →
      machine.control.Like p idle machine'.control → Like p machine machine'

/-- Machines that correspond once more scopes do. -/
def Corresponds (p : Pairing) (machine machine' : Machine) : Prop :=
  ∃ q, p.Grows q ∧ machine.Like q machine'

end Machine

/-! ## More scopes correspond -/

section

variable {p q : Pairing} {idle : Option Nat}

theorem Frame.Like.mono {frame frame' : Frame} (h : frame.Like p idle frame')
    (hgrows : p.Grows q) : frame.Like q idle frame' := by
  cases h with
  | unary operator => exact .unary operator
  | binaryLeft operator hright => exact .binaryLeft operator (hright.mono hgrows)
  | binaryRight operator hleft => exact .binaryRight operator (hleft.mono hgrows)
  | logical operator hright => exact .logical operator (hright.mono hgrows)
  | assign htarget => exact .assign (htarget.mono hgrows)
  | callee paren harguments => exact .callee paren (harguments.mono hgrows)
  | argument paren hcallee hdone hrest =>
      exact .argument paren (hcallee.mono hgrows) (Value.Like.mono_all hdone hgrows)
        (hrest.mono hgrows)
  | get name => exact .get name
  | setObject name hvalue => exact .setObject name (hvalue.mono hgrows)
  | setValue name hobject => exact .setValue name (hobject.mono hgrows)
  | expression => exact .expression
  | print => exact .print
  | define name hidle => exact .define name hidle
  | choice hthen helse =>
      have hbranch (branch branch' : Stmt) (hlike : branch.Like p idle branch') :
          branch.Like q idle branch' := hlike.mono hgrows
      exact .choice (hthen.mono hgrows) (optionRel_imp hbranch helse)
  | loopTest hcondition hbody => exact .loopTest (hcondition.mono hgrows) (hbody.mono hgrows)
  | loopBody hcondition hbody => exact .loopBody (hcondition.mono hgrows) (hbody.mono hgrows)
  | returning => exact .returning
  | sequence hrest => exact .sequence (hrest.mono hgrows)

theorem Frame.LikeAll.mono {frames frames' : List Frame} (h : Frame.LikeAll p idle frames frames')
    (hgrows : p.Grows q) : Frame.LikeAll q idle frames frames' := by
  induction h with
  | nil => exact .nil
  | cons hframe _ ih => exact .cons (hframe.mono hgrows) ih
  | block henv _ ih => exact .block (henv.mono hgrows) ih
  | activation henv hcallee hmade _ ih =>
      exact .activation (henv.mono hgrows) (hcallee.mono hgrows)
        (optionRel_imp (fun _ _ hobject => hobject.mono hgrows) hmade) ih

/-! ## Steps -/

namespace Machine

variable {machine machine' : Machine}

namespace Around

/-- Something else is to be done, and the world has changed. -/
theorem turn (h : machine.Around p idle machine') (hgrows : p.Grows q) {world world' : World}
    (hworld : world.Like q world') (control control' : Control) :
    Around q idle ⟨control, machine.frames, machine.env, machine.depth, world⟩
      ⟨control', machine'.frames, machine'.env, machine'.depth, world'⟩ :=
  ⟨h.frames.mono hgrows, h.env.mono hgrows, h.depth, hworld⟩

theorem corresponds (h : machine.Around p idle machine') (hgrows : p.Grows q) {world world' : World}
    (hworld : world.Like q world') {control control' : Control}
    (hcontrol : control.Like q idle control') :
    Corresponds p ⟨control, machine.frames, machine.env, machine.depth, world⟩
      ⟨control', machine'.frames, machine'.env, machine'.depth, world'⟩ :=
  ⟨q, hgrows, .mk (h.turn hgrows hworld control control') hcontrol⟩

theorem yield (h : machine.Around p idle machine') {value value' : Value}
    (hvalue : value.Like p value') : (machine.yield value).Corresponds p (machine'.yield value') :=
  h.corresponds (.refl p) h.world (.value hvalue)

theorem complete (h : machine.Around p idle machine') {completion completion' : Completion}
    (hcompletion : completion.Like p completion') :
    (machine.complete completion).Corresponds p (machine'.complete completion') :=
  h.corresponds (.refl p) h.world (.completed hcompletion)

theorem fail (h : machine.Around p idle machine') (fault : RuntimeFault) :
    (machine.fail fault).Corresponds p (machine'.fail fault) :=
  h.corresponds (.refl p) h.world (.failed _)

theorem settle (h : machine.Around p idle machine') {result result' : Except RuntimeFault Value}
    (hresult : p.Results result result') :
    (machine.settle result).Corresponds p (machine'.settle result') := by
  cases hresult with
  | ok hvalue => exact h.yield hvalue
  | error fault => exact h.fail fault

/-- The result of a part that needs no steps, with what it has done to the world. -/
theorem settle_after (h : machine.Around p idle machine') {world world' : World}
    {result result' : Except RuntimeFault Value}
    (hresult : ∃ q, p.Grows q ∧ world.Like q world' ∧ q.Results result result') :
    (Machine.settle { machine with world := world } result).Corresponds p
      (Machine.settle { machine' with world := world' } result') := by
  obtain ⟨q, hgrows, hworld, hresult⟩ := hresult
  obtain ⟨r, hgrows', hlike⟩ :=
    (h.turn hgrows hworld machine.control machine'.control).settle hresult
  exact ⟨r, hgrows.trans hgrows', hlike⟩

theorem evaluating (h : machine.Around p idle machine') {expression expression' : Expr}
    (hexpression : expression.Like p idle expression') {frame frame' : Frame}
    (hframe : frame.Like p idle frame') :
    (machine.evaluating expression frame).Corresponds p (machine'.evaluating expression' frame') :=
  ⟨p, .refl p, .mk ⟨.cons hframe h.frames, h.env, h.depth, h.world⟩ (.evaluate hexpression)⟩

theorem executing (h : machine.Around p idle machine') {statement statement' : Stmt}
    (hstatement : statement.Like p idle statement') {frame frame' : Frame}
    (hframe : frame.Like p idle frame') :
    (machine.executing statement frame).Corresponds p (machine'.executing statement' frame') :=
  ⟨p, .refl p, .mk ⟨.cons hframe h.frames, h.env, h.depth, h.world⟩ (.execute hstatement)⟩

/-! ### Calls -/

/-- The body of a function stands in the scope of its parameters. -/
theorem enter (h : machine.Around p idle machine') {callee callee' : Closure}
    (hcallee : callee.Like p callee') {arguments arguments' : List Value}
    (harguments : List.Forall₂ (Value.Like p) arguments arguments')
    {made made' : Option Instance} (hmade : Option.Rel (Instance.Like p) made made') :
    (machine.enter callee arguments made).Corresponds p
      (machine'.enter callee' arguments' made') := by
  have hsame := hcallee
  cases hcallee with
  | @mk identity declaration declaration' env env' isInitializer place henv hdeclaration hplace =>
      obtain ⟨ids, rfl, hfits⟩ := hdeclaration
      obtain ⟨name, params, body⟩ := declaration
      have hgrows := p.grows_adding (some machine'.world.store.scopes.size)
      have hopened := h.world.store.newScope
        (Bindings.like_ofList (params.map Token.lexeme) harguments)
      have hcopy : (FunctionDecl.mk name params body).relabel (.ofIds ids) =
          .mk name params (Stmt.relabelAll (.ofIds ids) body) := by
        rw [FunctionDecl.relabel, Relabeling.map_token_ofIds, Relabeling.token_ofIds]
      rw [hcopy] at hsame ⊢
      have hmade' := optionRel_imp (fun _ _ hobject => Instance.Like.mono hobject hgrows) hmade
      exact ⟨_, hgrows, .mk ⟨.activation (h.env.mono hgrows) (hsame.mono hgrows) hmade'
        (h.frames.mono hgrows), .inner (h.world.store.image_newScope [] []) (henv.mono hgrows),
        congrArg (· + 1) h.depth, h.world.withStore hgrows hopened⟩ (.run ⟨ids, rfl, hfits⟩)⟩

theorem callObstacle?_eq (h : machine.Around p idle machine') {callee callee' : Value}
    (hcallee : callee.Like p callee') {arguments arguments' : List Value}
    (harguments : List.Forall₂ (Value.Like p) arguments arguments') :
    callObstacle? callee' arguments' machine'.depth =
      callObstacle? callee arguments machine.depth := by
  rw [callObstacle?, callObstacle?, hcallee.arity?_eq, harguments.length_eq, h.depth]

theorem call (h : machine.Around p idle machine') (paren : Token) {callee callee' : Value}
    (hcallee : callee.Like p callee') {arguments arguments' : List Value}
    (harguments : List.Forall₂ (Value.Like p) arguments arguments') :
    (machine.call paren callee arguments).Corresponds p
      (machine'.call paren callee' arguments') := by
  unfold Machine.call
  rw [h.callObstacle?_eq hcallee harguments]
  cases callObstacle? callee arguments machine.depth with
  | some cause => exact h.fail _
  | none =>
      cases hcallee with
      | builtin native =>
          cases native with
          | clock =>
              obtain ⟨hworld, hseconds⟩ := h.world.tick
              dsimp only
              rw [hseconds]
              exact h.corresponds (.refl p) hworld (.value (.number _))
      | function hclosure => exact h.enter hclosure harguments .none
      | @classValue ownClass ownClass' hclass =>
          obtain ⟨hworld, hobject⟩ := h.world.construct hclass
          dsimp only
          rcases optionRel_cases (hclass.findMethod? FunctionDecl.initializerName) with
            ⟨method, method', hmethod, hmethod', hlike⟩ | ⟨hmethod, hmethod'⟩
          · rw [Class.initializer?, hmethod, Class.initializer?, hmethod']
            dsimp only
            obtain ⟨q, hgrows, hbound, hclosure⟩ := hworld.bind hlike hobject
            have hturned := h.turn hgrows hbound machine.control machine'.control
            obtain ⟨r, hgrows', hentered⟩ := hturned.enter hclosure
              (Value.Like.mono_all harguments hgrows) (.some (hobject.mono hgrows))
            exact ⟨r, hgrows.trans hgrows', hentered⟩
          · rw [Class.initializer?, hmethod, Class.initializer?, hmethod']
            dsimp only
            exact h.corresponds (.refl p) hworld (.value (.object hobject))
      | _ => exact h.fail _

theorem nextArgument (h : machine.Around p idle machine') (paren : Token) {callee callee' : Value}
    (hcallee : callee.Like p callee') {done done' : List Value}
    (hdone : List.Forall₂ (Value.Like p) done done') {rest rest' : List Expr}
    (hrest : Expr.LikeAll p idle rest rest') :
    (machine.nextArgument paren callee done rest).Corresponds p
      (machine'.nextArgument paren callee' done' rest') := by
  obtain ⟨ids, rfl, hfits⟩ := hrest
  cases rest with
  | nil => exact h.call paren hcallee (List.forall₂_reverse_iff.2 hdone)
  | cons argument rest =>
      exact h.evaluating ⟨ids, rfl, hfits.1⟩ (.argument paren hcallee hdone ⟨ids, rfl, hfits.2⟩)

/-! ### Expressions -/

theorem evaluate (h : machine.Around p idle machine') {expression expression' : Expr}
    (hexpression : expression.Like p idle expression') :
    (machine.evaluate expression).Corresponds p (machine'.evaluate expression') := by
  obtain ⟨ids, rfl, hfits⟩ := hexpression
  cases expression with
  | literal value => exact h.yield (.ofLiteral value)
  | grouping inner =>
      exact h.corresponds (.refl p) h.world (.evaluate ⟨ids, rfl, hfits⟩)
  | unary operator operand =>
      have hoperand : operand.Like p idle (operand.relabel (.ofIds ids)) := ⟨ids, rfl, hfits⟩
      exact h.evaluating hoperand (.unary operator)
  | binary operator left right =>
      exact h.evaluating ⟨ids, rfl, hfits.1⟩ (.binaryLeft operator ⟨ids, rfl, hfits.2⟩)
  | logical operator left right =>
      exact h.evaluating ⟨ids, rfl, hfits.1⟩ (.logical operator ⟨ids, rfl, hfits.2⟩)
  | «variable» occurrence => exact h.settle (h.world.read h.env ⟨ids, rfl, hfits⟩)
  | assign target value =>
      exact h.evaluating ⟨ids, rfl, hfits.2⟩ (.assign ⟨ids, rfl, hfits.1⟩)
  | call callee paren arguments =>
      exact h.evaluating ⟨ids, rfl, hfits.1⟩ (.callee paren ⟨ids, rfl, hfits.2⟩)
  | get object name =>
      have hobject : object.Like p idle (object.relabel (.ofIds ids)) := ⟨ids, rfl, hfits⟩
      exact h.evaluating hobject (.get name)
  | set object name value =>
      exact h.evaluating ⟨ids, rfl, hfits.1⟩ (.setObject name ⟨ids, rfl, hfits.2⟩)
  | thisRef occurrence => exact h.settle (h.world.read h.env ⟨ids, rfl, hfits⟩)
  | superRef occurrence method =>
      refine h.settle_after (h.world.superMethod h.env ⟨ids, rfl, hfits.1⟩ ?_ method)
      intro distance hdistance
      rw [h.world.real] at hdistance
      exact hfits.2 distance hdistance

/-! ### Statements -/

/-- The name of a class is bound in scopes that correspond. -/
theorem declareClass (h : machine.Around p idle machine') (hidle : idle ≠ some 0) (name : Token)
    {superclass superclass' : Option Class}
    (hsuperclass : Option.Rel (Class.Like p) superclass superclass')
    {methods methods' : List FunctionDecl}
    (hmethods : FunctionDecl.LikeAll p (deeper (if superclass.isSome then deeper idle else idle))
      methods methods') :
    (machine.declareClass name superclass methods).Corresponds p
      (machine'.declareClass name superclass' methods') := by
  obtain ⟨scope, image, hscope, himage, hpair⟩ := h.env.head? hidle
  have hlt : scope < machine.world.store.scopes.size :=
    h.world.store.covers.length ▸ (List.getElem?_eq_some_iff.1 hpair).1
  have hlt' := h.world.store.covers.lt scope image hpair
  rw [declareClass_eq hscope hlt, declareClass_eq himage hlt']
  have hnamed := h.world.define h.env hidle name.lexeme .nil
  obtain ⟨q, hgrows, hmade, hclass⟩ := hnamed.makeClass h.env name.lexeme hsuperclass hmethods
  have hset := hmade.set (hgrows.image hpair) name.lexeme (.classValue hclass)
  exact h.corresponds hgrows hset (.completed .normal)

theorem execute (h : machine.Around p idle machine') {statement statement' : Stmt}
    (hstatement : statement.Like p idle statement') :
    (machine.execute statement).Corresponds p (machine'.execute statement') := by
  obtain ⟨ids, rfl, hfits⟩ := hstatement
  cases statement with
  | block body =>
      have hgrows := p.grows_adding (some machine'.world.store.scopes.size)
      have hopened := h.world.store.newScope (Bindings.like_nil p)
      exact ⟨_, hgrows, .mk ⟨.block (h.env.mono hgrows) (h.frames.mono hgrows),
        .inner (h.world.store.image_newScope [] []) (h.env.mono hgrows), h.depth,
        h.world.withStore hgrows hopened⟩ (.run ⟨ids, rfl, hfits⟩)⟩
  | classDecl name superclass methods =>
      obtain ⟨hidle, hsuperclass, hmethods⟩ := hfits
      cases superclass with
      | none => exact h.declareClass hidle name .none ⟨ids, rfl, hmethods⟩
      | some occurrence =>
          have hread := h.world.read h.env ⟨ids, rfl, hsuperclass occurrence rfl⟩
          dsimp only [Machine.execute, Stmt.relabel, Option.map_some]
          revert hread
          generalize machine.world.read machine.env occurrence = result,
            machine'.world.read machine'.env _ = result'
          intro hread
          cases hread with
          | error fault => exact h.fail fault
          | ok hvalue =>
              cases hvalue with
              | classValue hclass =>
                  exact h.declareClass hidle name (.some hclass) ⟨ids, rfl, hmethods⟩
              | _ => exact h.fail _
  | expression value => exact h.evaluating ⟨ids, rfl, hfits⟩ .expression
  | function declaration =>
      obtain ⟨hidle, hdeclaration⟩ := hfits
      have hcode : declaration.Like p (id idle) (declaration.relabel (.ofIds ids)) :=
        ⟨ids, rfl, hdeclaration⟩
      obtain ⟨hclosed, hclosure⟩ := h.world.close h.env hcode
        fun heq : false = true => by cases heq
      have hdefined := hclosed.define h.env hidle declaration.name.lexeme (.function hclosure)
      have hname : (declaration.relabel (.ofIds ids)).name = declaration.name :=
        declaration.name_relabel _
      rw [Stmt.relabel, Machine.execute, Machine.execute]
      dsimp only
      rw [hname]
      exact h.corresponds (.refl p) hdefined (.completed .normal)
  | conditional condition thenBranch elseBranch =>
      cases elseBranch with
      | none =>
          exact h.evaluating ⟨ids, rfl, hfits.1⟩ (.choice ⟨ids, rfl, hfits.2.1⟩ .none)
      | some elseBranch =>
          exact h.evaluating ⟨ids, rfl, hfits.1⟩
            (.choice ⟨ids, rfl, hfits.2.1⟩ (.some ⟨ids, rfl, hfits.2.2⟩))
  | print value => exact h.evaluating ⟨ids, rfl, hfits⟩ .print
  | returnValue keyword value =>
      cases value with
      | none => exact h.complete (.returned .nil)
      | some value => exact h.evaluating ⟨ids, rfl, hfits value rfl⟩ .returning
  | varDecl name initializer =>
      obtain ⟨hidle, hinitializer⟩ := hfits
      cases initializer with
      | none =>
          have hdefined := h.world.define h.env hidle name.lexeme .nil
          exact h.corresponds (.refl p) hdefined (.completed .normal)
      | some value => exact h.evaluating ⟨ids, rfl, hinitializer value rfl⟩ (.define name hidle)
  | whileLoop condition body =>
      exact h.evaluating ⟨ids, rfl, hfits.1⟩ (.loopTest ⟨ids, rfl, hfits.1⟩ ⟨ids, rfl, hfits.2⟩)

/-! ### Results -/

/-- A frame that does not take what it gets stays. -/
theorem back (h : machine.Around p idle machine')
    (hcontrol : machine.control.Like p idle machine'.control) {frame frame' : Frame}
    (hframe : frame.Like p idle frame') :
    Corresponds p { machine with frames := frame :: machine.frames }
      { machine' with frames := frame' :: machine'.frames } :=
  ⟨p, .refl p, .mk ⟨.cons hframe h.frames, h.env, h.depth, h.world⟩ hcontrol⟩

theorem receive (h : machine.Around p idle machine')
    (hcontrol : machine.control.Like p idle machine'.control) {value value' : Value}
    (hvalue : value.Like p value') {frame frame' : Frame} (hframe : frame.Like p idle frame') :
    (machine.receive value frame).Corresponds p (machine'.receive value' frame') := by
  cases hframe with
  | unary operator => exact h.settle ((hvalue.unary operator.kind).mapError operator.fault)
  | binaryLeft operator hright => exact h.evaluating hright (.binaryRight operator hvalue)
  | binaryRight operator hleft =>
      exact h.settle ((hleft.binary hvalue operator.kind).mapError operator.fault)
  | logical operator hright =>
      unfold Machine.receive
      dsimp only
      rw [hvalue.decides_eq]
      split
      · exact h.yield hvalue
      · exact h.corresponds (.refl p) h.world (.evaluate hright)
  | @assign target target' htarget =>
      have hname := (h.world.distance_cases htarget).1
      have hfound := h.world.target h.env htarget
      unfold Machine.receive
      dsimp only
      rw [hname]
      revert hfound
      generalize machine.world.target machine.env target = result,
        machine'.world.target machine'.env target' = result'
      intro hfound
      cases hfound with
      | ok himage => exact h.corresponds (.refl p) (h.world.set himage _ hvalue) (.value hvalue)
      | error fault => exact h.corresponds (.refl p) h.world (.failed _)
  | callee paren harguments => exact h.nextArgument paren hvalue .nil harguments
  | argument paren hcallee hdone hrest =>
      exact h.nextArgument paren hcallee (.cons hvalue hdone) hrest
  | get name =>
      cases hvalue with
      | object hobject => exact h.settle_after (h.world.property hobject name)
      | _ => exact h.fail _
  | setObject name hexpression =>
      cases hvalue with
      | object hobject => exact h.evaluating hexpression (.setValue name hobject)
      | _ => exact h.fail _
  | setValue name hobject =>
      cases hobject with
      | @mk identity _ _ _ =>
          have hstore := h.world.store.setField identity name.lexeme hvalue
          exact h.corresponds (.refl p) (h.world.withStore (.refl p) hstore) (.value hvalue)
  | expression => exact h.complete .normal
  | print =>
      obtain ⟨hworld, hfits⟩ := h.world.print hvalue
      unfold Machine.receive
      dsimp only
      rcases hprinted : machine.world.print value with ⟨world, fits⟩
      rcases hprinted' : machine'.world.print value' with ⟨world', fits'⟩
      rw [hprinted, hprinted'] at hworld hfits
      obtain rfl : fits' = fits := hfits
      cases fits' with
      | true => exact h.corresponds (.refl p) hworld (.completed .normal)
      | false => exact h.corresponds (.refl p) hworld (.failed _)
  | define name hidle =>
      exact h.corresponds (.refl p) (h.world.define h.env hidle name.lexeme hvalue)
        (.completed .normal)
  | choice hthen helse =>
      unfold Machine.receive
      dsimp only
      rw [hvalue.isTruthy_eq]
      split
      · exact h.corresponds (.refl p) h.world (.execute hthen)
      · cases helse with
        | some helse => exact h.corresponds (.refl p) h.world (.execute helse)
        | none => exact h.complete .normal
  | loopTest hcondition hbody =>
      unfold Machine.receive
      dsimp only
      rw [hvalue.isTruthy_eq]
      split
      · exact h.executing hbody (.loopBody hcondition hbody)
      · exact h.complete .normal
  | loopBody hcondition hbody => exact h.back hcontrol (.loopBody hcondition hbody)
  | returning => exact h.complete (.returned hvalue)
  | sequence hrest => exact h.back hcontrol (.sequence hrest)

/-- A function is left for the environment of its caller.  The scope of the instance to which an
initializer is bound is not the one that is left out. -/
theorem leave {machine machine' : Machine} {around : Option Nat} {caller caller' : Env}
    (hframes : Frame.LikeAll p around machine.frames machine'.frames)
    (henv : Env.Skips p around caller caller') (hdepth : machine'.depth = machine.depth)
    (hworld : machine.world.Like p machine'.world) {callee callee' : Closure}
    (hcallee : callee.Like p callee') {made made' : Option Instance}
    (hmade : Option.Rel (Instance.Like p) made made') {completion completion' : Completion}
    (hcompletion : completion.Like p completion') :
    (machine.leave ⟨caller, callee, made⟩ completion).Corresponds p
      (machine'.leave ⟨caller', callee', made'⟩ completion') := by
  have h : Around p around { machine with env := caller, depth := machine.depth - 1 }
      { machine' with env := caller', depth := machine'.depth - 1 } :=
    ⟨hframes, henv, congrArg (· - 1) hdepth, hworld⟩
  cases hcallee with
  | @mk identity declaration declaration' env env' isInitializer idle hskips hdeclaration hplace =>
      obtain ⟨ids, rfl, -⟩ := hdeclaration
      have hname : (declaration.relabel (.ofIds ids)).name = declaration.name :=
        declaration.name_relabel _
      unfold Machine.leave
      dsimp only
      cases isInitializer with
      | true =>
          rw [if_pos rfl, if_pos rfl, hname]
          have hthis := hworld.store.getAt? hskips (hplace rfl) thisName
          rw [skip_zero] at hthis
          rcases optionRel_cases hthis with
            ⟨this, this', hfound, hfound', hlike⟩ | ⟨hfound, hfound'⟩
          · rw [hfound, hfound']
            cases hmade with
            | some hobject => exact h.yield (.object hobject)
            | none => exact h.yield hlike
          · rw [hfound, hfound']
            exact h.fail _
      | false =>
          rw [if_neg Bool.false_ne_true, if_neg Bool.false_ne_true]
          cases hcompletion with
          | normal => exact h.yield .nil
          | returned hvalue => exact h.yield hvalue

theorem finish (h : machine.Around p idle machine')
    (hcontrol : machine.control.Like p idle machine'.control) {completion completion' : Completion}
    (hcompletion : completion.Like p completion') {frame frame' : Frame}
    (hframe : frame.Like p idle frame') :
    (machine.finish completion frame).Corresponds p (machine'.finish completion' frame') := by
  have hback := h.back hcontrol hframe
  cases hframe with
  | sequence hrest =>
      cases hcompletion with
      | normal => exact h.corresponds (.refl p) h.world (.run hrest)
      | returned hvalue => exact ⟨p, .refl p, .mk h hcontrol⟩
  | loopBody hcondition hbody =>
      cases hcompletion with
      | normal => exact h.evaluating hcondition (.loopTest hcondition hbody)
      | returned hvalue => exact ⟨p, .refl p, .mk h hcontrol⟩
  | _ => exact hback

end Around

/-- Machines that correspond take steps that correspond. -/
theorem Like.step (h : machine.Like p machine') : machine.step.Corresponds p machine'.step := by
  obtain ⟨control, frames, env, depth, world⟩ := machine
  obtain ⟨control', frames', env', depth', world'⟩ := machine'
  have hstays := h
  cases h with
  | @mk idle haround hcontrol =>
      obtain ⟨hframes, henv, hdepth, hworld⟩ := haround
      have hsame := hcontrol
      cases hcontrol with
      | evaluate hexpression => exact Around.evaluate ⟨hframes, henv, hdepth, hworld⟩ hexpression
      | execute hstatement => exact Around.execute ⟨hframes, henv, hdepth, hworld⟩ hstatement
      | @run statements _ hstatements =>
          obtain ⟨ids, rfl, hfits⟩ := hstatements
          cases statements with
          | nil => exact ⟨p, .refl p, .mk ⟨hframes, henv, hdepth, hworld⟩ (.completed .normal)⟩
          | cons statement rest =>
              exact ⟨p, .refl p, .mk ⟨.cons (.sequence ⟨ids, rfl, hfits.2⟩) hframes, henv, hdepth,
                hworld⟩ (.execute ⟨ids, rfl, hfits.1⟩)⟩
      | @value result result' hvalue =>
          cases hframes with
          | nil => exact ⟨p, .refl p, hstays⟩
          | @cons _ _ _ frames frames' hframe hframes =>
              have hpopped : Around p idle ⟨.value result, frames, env, depth, world⟩
                  ⟨.value result', frames', env', depth', world'⟩ := ⟨hframes, henv, hdepth, hworld⟩
              exact hpopped.receive hsame hvalue hframe
          | block _ _ => exact ⟨p, .refl p, hstays⟩
          | activation _ _ _ _ => exact ⟨p, .refl p, hstays⟩
      | @completed completion completion' hcompletion =>
          cases hframes with
          | nil => exact ⟨p, .refl p, hstays⟩
          | @cons _ _ _ frames frames' hframe hframes =>
              have hpopped : Around p idle ⟨.completed completion, frames, env, depth, world⟩
                  ⟨.completed completion', frames', env', depth', world'⟩ :=
                ⟨hframes, henv, hdepth, hworld⟩
              exact hpopped.finish hsame hcompletion hframe
          | block houter hframes =>
              exact ⟨p, .refl p, .mk ⟨hframes, houter, hdepth, hworld⟩ (.completed hcompletion)⟩
          | @activation _ around _ _ _ _ _ _ frames frames' hcaller hcallee hmade hframes =>
              let popped : Machine := ⟨.completed completion, frames, env, depth, world⟩
              let popped' : Machine := ⟨.completed completion', frames', env', depth', world'⟩
              have hleft : Frame.LikeAll p around popped.frames popped'.frames := hframes
              exact Around.leave hleft hcaller hdepth hworld hcallee hmade hcompletion
      | failed failure =>
          cases hframes with
          | nil => exact ⟨p, .refl p, hstays⟩
          | @cons _ _ _ frames frames' hframe hframes =>
              have hunwound : Around p idle ⟨.failed failure, frames, env, depth, world⟩
                  ⟨.failed failure, frames', env', depth', world'⟩ :=
                    ⟨hframes, henv, hdepth, hworld⟩
              cases hframe <;> exact ⟨p, .refl p, .mk hunwound (.failed failure)⟩
          | block houter hframes =>
              exact ⟨p, .refl p, .mk ⟨hframes, houter, hdepth, hworld⟩ (.failed failure)⟩
          | activation hcaller _ _ hframes =>
              exact ⟨p, .refl p, .mk ⟨hframes, hcaller, congrArg (· - 1) hdepth, hworld⟩
                (.failed failure)⟩

/-- Machines that correspond print the same from then on. -/
theorem Like.steps (h : machine.Like p machine') (count : Nat) :
    (Machine.step^[count] machine).Corresponds p (Machine.step^[count] machine') := by
  induction count generalizing p machine machine' with
  | zero => exact ⟨p, .refl p, h⟩
  | succ count ih =>
      obtain ⟨q, hgrows, hstep⟩ := h.step
      obtain ⟨r, hgrows', hlater⟩ := ih hstep
      exact ⟨r, hgrows.trans hgrows', hlater⟩

end Machine

end

end LoxLang
