import TreeJit.Session
import TreeJit.Proofs.Accesses
import TreeJit.Proofs.Growth

/-! # Sessions over many requests

There are few things that a request can do to a session, and `perform_changes`
says which.  What holds after any list of requests follows from it.  The trees that were
offered for compilation tell all there is to know about the slots: how many there
are, from which tree the code in one of them was made, and with which numbers its
literals go.

* `perform_error` — what a request that fails leaves.
* `Follows.perform`, `Follows.afterAll` — slots and numbers follow the trees on
  offer, after one request and after many.
* `code_stays` — code stays in its slot until it is dropped.
* `perform_call`, `call_after_requests` — a call never traps; if it answers, it
  answers with what the tree that was offered for its slot evaluates to.
-/

namespace TreeJit

open Machine (Host State)

namespace Session

/-! ## Offers -/

namespace Request

/-- The tree that a request offers for compilation, or what has kept it from being built. -/
def offer? : Request → Option (Except ZeroByte Node)
  | .compile root => some root
  | .compileGrowing root _ => some root
  | _ => none

/-- The access to the cell that a request is. -/
def access? : Request → Option Access
  | .setNumber value => some (.setNumber value)
  | .setText bytes => (Text.ofBytes bytes).toOption.map .setText
  | .number => some .number
  | .string => some .string
  | .stringBytes => some .stringBytes
  | _ => none

/-- The slot that a request calls. -/
def callee? : Request → Option Nat
  | .run slot => some slot
  | .runNumber slot => some slot
  | .runString slot => some slot
  | _ => none

end Request

/-- How many string literals a tree on offer has. -/
def literalsIn : Except ZeroByte Node → Nat
  | .ok root => root.literals.length
  | .error _ => 0

/-- How many string literals trees on offer have together. -/
def literalTotal : List (Except ZeroByte Node) → Nat
  | [] => 0
  | offer :: offers => literalsIn offer + literalTotal offers

theorem literalTotal_append (offers offers' : List (Except ZeroByte Node)) :
    literalTotal (offers ++ offers') = literalTotal offers + literalTotal offers' := by
  induction offers with
  | nil => simp [literalTotal]
  | cons offer offers ih => simp only [List.cons_append, literalTotal, ih, Nat.add_assoc]

/-! ## One request -/

/-- The configuration that a compilation leaves. -/
def configAfter (s : Session) : Request → Config
  | .compileGrowing (.ok root) limit =>
    (TreeJit.compileGrowing s.config s.context limit root).1
  | _ => s.config

/-- What a request can make of a session. -/
inductive Changes (s : Session) : Request → Session → Prop where
  | kept {request : Request} (silent : request.offer? = none) (noAccess : request.access? = none) :
      Changes s request s
  | access {request : Request} {a : Access} (made : request.access? = some a) :
      Changes s request { s with cell := s.cell.after a }
  | config (config : Config) : Changes s (.setConfig config) { s with config := config }
  | call {request : Request} {slot : Nat} {code : CompiledCode}
      (callee : request.callee? = some slot) (held : s.slots[slot]? = some (some code))
      (cell : Cell) :
      Changes s request { s with cell := cell }
  -- a slot and numbers for the literals are taken whether or not there is code
  | offer {request : Request} {offer : Except ZeroByte Node} (offered : request.offer? = some offer)
      (slot : Option CompiledCode)
      (origin : ∀ code, slot = some code →
        ∃ root, offer = .ok root ∧ code.MadeFrom s.context root) :
      Changes s request { s with
        config := s.configAfter request
        slots := s.slots.push slot
        literalCount := s.literalCount + literalsIn offer }
  | drop {slot : Nat} {code : CompiledCode} (held : s.slots[slot]? = some (some code)) :
      Changes s (.drop slot) { s with slots := s.slots.setIfInBounds slot none }

variable {s : Session} {request : Request} {offers : List (Except ZeroByte Node)}

namespace Request

theorem offer?_of_access {a : Access} (made : request.access? = some a) :
    request.offer? = none := by
  cases request <;> first | rfl | cases made

theorem offer?_of_callee {slot : Nat} (callee : request.callee? = some slot) :
    request.offer? = none := by
  cases request <;> first | rfl | cases callee

end Request

theorem withCode_changes {slot : Nat} (callee : request.callee? = some slot)
    (call : CompiledCode → Except CallFailure (Reply × Cell)) :
    s.Changes request (s.withCode slot call).session := by
  have silent := Request.offer?_of_callee callee
  have noAccess : request.access? = none := by
    cases request <;> first | rfl | cases callee
  unfold withCode
  split
  · rename_i held
    split
    · exact .call callee held _
    · exact .kept silent noAccess
  · exact .kept silent noAccess

theorem compileGrowing_ok {config : Config} {ctx : Context} {limit : Nat} {root : Node}
    {made : CompiledCode} (compiled : (compileGrowing config ctx limit root).2.result = .ok made) :
    made.MadeFrom ctx root :=
  compile_ok ((compileGrowing_growsTo config ctx limit root).result.symm.trans compiled)

theorem settle_changes {root : Node} (offered : request.offer? = some (.ok root))
    {made : Compilation}
    (origin : ∀ code, made.result = .ok code → code.MadeFrom s.context root) :
    s.Changes request (s.settle root (s.configAfter request) made).session := by
  refine .offer offered made.result.toOption fun code held => ⟨root, rfl, origin code ?_⟩
  cases result : made.result with
  | ok code' =>
    rw [result] at held
    cases held
    rfl
  | error e =>
    rw [result] at held
    cases held

theorem settleBroken_changes {z : ZeroByte} (offered : request.offer? = some (.error z))
    (left : s.configAfter request = s.config) :
    s.Changes request (s.settleBroken z).session := by
  have changes := Changes.offer (s := s) offered none nofun
  rw [left] at changes
  exact changes

theorem perform_changes (s : Session) (request : Request) :
    s.Changes request (s.perform request).session := by
  cases request with
  | setNumber value => exact .access (a := .setNumber value) (by rfl)
  | number => exact .access (a := .number) (by rfl)
  | string => exact .access (a := .string) (by rfl)
  | stringBytes => exact .access (a := .stringBytes) (by rfl)
  | setText bytes =>
    cases made : Text.ofBytes bytes with
    | ok text =>
      simp only [perform, made]
      exact .access (a := .setText text) (by simp only [Request.access?, made]; rfl)
    | error z =>
      simp only [perform, made]
      exact .kept rfl (by simp only [Request.access?, made]; rfl)
  | setConfig config => exact .config config
  | config => exact .kept rfl rfl
  | compile root =>
    cases root with
    | ok root => exact settle_changes rfl fun code => compile_ok
    | error z => exact settleBroken_changes rfl rfl
  | compileGrowing root limit =>
    cases root with
    | ok root => exact settle_changes rfl fun code => compileGrowing_ok
    | error z => exact settleBroken_changes rfl rfl
  | run slot | runNumber slot | runString slot => exact withCode_changes rfl _
  | code slot =>
    simp only [perform, withCode]
    split <;> exact .kept rfl rfl
  | drop slot =>
    simp only [perform]
    split
    · exact .drop ‹_›
    · exact .kept rfl rfl

/-! ## Requests that fail -/

/-- What a request that fails leaves: the session as it was, but for what a compilation has used up
and for the capacity that it has grown to. -/
def afterFailure (s : Session) (request : Request) : Session :=
  match request.offer? with
  | none => s
  | some offer => { s with
      config := s.configAfter request
      slots := s.slots.push none
      literalCount := s.literalCount + literalsIn offer }

theorem withCode_error {slot : Nat} {call : CompiledCode → Except CallFailure (Reply × Cell)}
    {failure : Failure} (failed : (s.withCode slot call).reply = .error failure) :
    (s.withCode slot call).session = s := by
  unfold withCode at failed ⊢
  split
  · rename_i code held
    rw [held] at failed
    simp only at failed
    cases called : call code with
    | ok answered =>
      rw [called] at failed
      cases failed
    | error e => rfl
  · rfl

theorem settle_error {root : Node} {config : Config} {made : Compilation} {failure : Failure}
    (failed : (s.settle root config made).reply = .error failure) :
    (s.settle root config made).session = { s with
      config := config
      slots := s.slots.push none
      literalCount := s.literalCount + root.literals.length } := by
  simp only [settle] at failed ⊢
  cases result : made.result with
  | ok code =>
    rw [result] at failed
    cases failed
  | error e => rfl

theorem perform_error {failure : Failure} (failed : (s.perform request).reply = .error failure) :
    (s.perform request).session = s.afterFailure request := by
  cases request with
  | setNumber value | number | string | stringBytes | setConfig config | config => cases failed
  | setText bytes =>
    simp only [perform] at failed ⊢
    cases made : Text.ofBytes bytes with
    | ok text =>
      rw [made] at failed
      cases failed
    | error z => rfl
  | compile root =>
    cases root with
    | ok root => exact settle_error failed
    | error z => rfl
  | compileGrowing root limit =>
    cases root with
    | ok root => exact settle_error failed
    | error z => rfl
  | run slot | runNumber slot | runString slot | code slot => exact withCode_error failed
  | drop slot =>
    simp only [perform] at failed ⊢
    split
    · rename_i held
      rw [held] at failed
      cases failed
    · rfl

/-! ## Slots and numbers of literals -/

/-- The slots of a session, and the numbers of its literals, are those of the trees that it was
offered, in that order. -/
structure Follows (s : Session) (offers : List (Except ZeroByte Node)) : Prop where
  size : s.slots.size = offers.length
  literalCount : s.literalCount = literalTotal offers
  origin : ∀ (slot : Nat) (code : CompiledCode), s.slots[slot]? = some (some code) →
    ∃ root, offers[slot]? = some (.ok root) ∧ code.MadeFrom
      { variableName := s.variableName, firstLiteral := literalTotal (offers.take slot) } root

theorem follows_start (variableName : String) (cell : Cell) (config : Config) :
    (start variableName cell config).Follows [] where
  size := rfl
  literalCount := rfl
  origin slot code held := by simp [start] at held

/-- Code for the tree that is offered next, if there is any. -/
theorem Follows.push (follows : s.Follows offers) (config : Config)
    {offer : Except ZeroByte Node} {slot : Option CompiledCode}
    (origin : ∀ code, slot = some code → ∃ root, offer = .ok root ∧ code.MadeFrom s.context root) :
    Follows { s with
      config := config
      slots := s.slots.push slot
      literalCount := s.literalCount + literalsIn offer } (offers ++ [offer]) := by
  refine ⟨?_, ?_, fun index code held => ?_⟩
  · simp [follows.size]
  · simp [follows.literalCount, literalTotal_append, literalTotal]
  · rw [Array.getElem?_push] at held
    split at held
    · -- the new slot: its literals are numbered from the total of those before
      rename_i last
      cases held
      obtain ⟨root, rfl, made⟩ := origin code rfl
      refine ⟨root, by simp [last, follows.size], ?_⟩
      rw [last, follows.size, List.take_left, ← follows.literalCount]
      exact made
    · obtain ⟨root, listed, made⟩ := follows.origin index code held
      have below : index < offers.length := (List.getElem?_eq_some_iff.1 listed).1
      refine ⟨root, by rw [List.getElem?_append_left below, listed], ?_⟩
      rw [List.take_append_of_le_length (Nat.le_of_lt below)]
      exact made

theorem Follows.clear (follows : s.Follows offers) (slot : Nat) :
    Follows { s with slots := s.slots.setIfInBounds slot none } offers := by
  refine ⟨by simp [follows.size], follows.literalCount, fun index code held => ?_⟩
  refine follows.origin index code ?_
  rw [Array.getElem?_setIfInBounds] at held
  split at held
  · split at held <;> cases held
  · exact held

theorem Follows.changes {after : Session} (follows : s.Follows offers)
    (changes : s.Changes request after) : after.Follows (offers ++ request.offer?.toList) := by
  have same {after : Session} (silent : request.offer? = none)
      (follows : after.Follows offers) : after.Follows (offers ++ request.offer?.toList) := by
    rwa [silent, Option.toList_none, List.append_nil]
  -- the cell and the configuration have no part in it
  have others (cell : Cell) (config : Config) :
      Follows { s with cell := cell, config := config } offers :=
    ⟨follows.size, follows.literalCount, follows.origin⟩
  cases changes with
  | kept silent => exact same silent follows
  | access made => exact same (Request.offer?_of_access made) (others _ s.config)
  | config config => exact same rfl (others s.cell config)
  | call callee => exact same (Request.offer?_of_callee callee) (others _ s.config)
  | offer offered slot origin =>
    rw [offered]
    exact follows.push _ origin
  | drop => exact same rfl (follows.clear _)

theorem Follows.perform (follows : s.Follows offers) (request : Request) :
    (s.perform request).session.Follows (offers ++ request.offer?.toList) :=
  follows.changes (s.perform_changes request)

/-! ## Any number of requests -/

/-- A session after requests, one after the other. -/
def afterAll (s : Session) (requests : List Request) : Session :=
  requests.foldl (fun s request => (s.perform request).session) s

theorem Follows.afterAll (follows : s.Follows offers) (requests : List Request) :
    (s.afterAll requests).Follows (offers ++ requests.filterMap Request.offer?) := by
  induction requests generalizing s offers with
  | nil => simpa [Session.afterAll] using follows
  | cons request requests ih =>
    have rest := ih (follows.perform request)
    rw [List.append_assoc] at rest
    cases offered : request.offer? with
    | none =>
      rw [List.filterMap_cons_none offered]
      rw [offered] at rest
      exact rest
    | some offer =>
      rw [List.filterMap_cons_some offered]
      rw [offered] at rest
      exact rest

theorem Changes.variableName {after : Session} (changes : s.Changes request after) :
    after.variableName = s.variableName := by
  cases changes <;> rfl

theorem variableName_afterAll (s : Session) (requests : List Request) :
    (s.afterAll requests).variableName = s.variableName := by
  induction requests generalizing s with
  | nil => rfl
  | cons request requests ih => exact (ih _).trans (s.perform_changes request).variableName

/-- A request leaves the code in a slot alone unless it drops it. -/
theorem Changes.code_stays {after : Session} (changes : s.Changes request after) {slot : Nat}
    {code : CompiledCode} (held : s.slots[slot]? = some (some code)) (kept : request ≠ .drop slot) :
    after.slots[slot]? = some (some code) := by
  cases changes with
  | kept | access | config | call => exact held
  | offer =>
    have below := (Array.getElem?_eq_some_iff.1 held).1
    rw [Array.getElem?_push_lt below, ← held, Array.getElem?_eq_getElem below]
  | drop =>
    rw [Array.getElem?_setIfInBounds_ne (by simpa using kept)]
    exact held

theorem code_stays (requests : List Request) {slot : Nat} {code : CompiledCode}
    (held : s.slots[slot]? = some (some code)) (kept : .drop slot ∉ requests) :
    (s.afterAll requests).slots[slot]? = some (some code) := by
  induction requests generalizing s with
  | nil => exact held
  | cons request requests ih =>
    obtain ⟨first, others⟩ := not_or.1 (List.mem_cons.not.1 kept)
    exact ih ((s.perform_changes request).code_stays held (Ne.symm first)) others

end Session

/-! ## Calls -/

section calls

variable {made : CompiledCode} {ctx : Context} {root : Node}

/-- Code that was made from a tree does not trap.  If it returns in time, then with what the tree
evaluates to. -/
theorem CompiledCode.MadeFrom.execute_cases (origin : made.MadeFrom ctx root)
    (separates : made.program.Separates) (fuel : Nat) (cell : Cell) :
    made.execute fuel cell = .error .unfinished ∨
      ∃ value left, Evaluates ctx.variableName cell root value left ∧ value.kind = made.result ∧
        made.run fuel cell = .ok left ∧
        (∀ x, value = .number x → made.runNumber fuel cell = .ok (x, left)) ∧
        (∀ t, value = .string t → made.runString fuel cell = .ok (t, left)) := by
  have runs := origin.runs separates Host.zero .zero
  cases ended : Machine.run Host.zero made.program fuel (State.enter .zero .zero false cell) with
  | running s => exact .inl (by rw [CompiledCode.execute, ended])
  | trapped t => exact absurd ended (runs.not_trapped .zero false cell fuel t)
  | returned s =>
    obtain ⟨value, evaluated, kind, finished⟩ := runs.finished ended
    exact .inr ⟨value, s.cell, evaluated, kind, origin.calls_ok ended kind finished.result⟩

/-- What becomes of a call of code that was made from a tree. -/
inductive Session.CallEnds (made : CompiledCode) (bound : String) (root : Node) (cell : Cell) :
    Session.Request → Except CallFailure (Session.Reply × Cell) → Prop where
  | done {slot : Nat} {value : Value} {left : Cell}
      (evaluated : Evaluates bound cell root value left) :
      CallEnds made bound root cell (.run slot) (.ok (.done, left))
  | number {slot : Nat} {x : Double} {left : Cell}
      (evaluated : Evaluates bound cell root (.number x) left) :
      CallEnds made bound root cell (.runNumber slot) (.ok (.number x, left))
  | string {slot : Nat} {t : Text} {left : Cell}
      (evaluated : Evaluates bound cell root (.string t) left) :
      CallEnds made bound root cell (.runString slot) (.ok (.text (String.ofList t.chars), left))
  /-- The code leaves another kind of value than the one asked for, and is not run. -/
  | otherKind {request : Session.Request} {expected : ValueKind} (other : made.result ≠ expected) :
      CallEnds made bound root cell request (.error (.error (.resultKind expected made.result)))
  | unfinished {request : Session.Request}
      (still : made.execute stepLimit cell = .error .unfinished) :
      CallEnds made bound root cell request (.error .unfinished)

namespace CompiledCode.MadeFrom

open Session (CallEnds)

variable (origin : made.MadeFrom ctx root) (separates : made.program.Separates) (cell : Cell)
  (slot : Nat)
include origin separates

theorem run_ends : CallEnds made ctx.variableName root cell (.run slot)
    ((made.run stepLimit cell).map fun left => (.done, left)) := by
  rcases origin.execute_cases separates stepLimit cell with
    still | ⟨value, left, evaluated, -, run, -⟩
  · have stopped : made.run stepLimit cell = .error .unfinished := by
      simp only [CompiledCode.run, still]
      rfl
    rw [stopped]
    exact .unfinished still
  · rw [run]
    exact .done evaluated

theorem runNumber_ends : CallEnds made ctx.variableName root cell (.runNumber slot)
    ((made.runNumber stepLimit cell).map fun (x, left) => (.number x, left)) := by
  by_cases asked : made.result = .number
  · have expected : made.expectResult .number = .ok () := if_pos asked
    rcases origin.execute_cases separates stepLimit cell with
      still | ⟨value, left, evaluated, kind, -, number, -⟩
    · have stopped : made.runNumber stepLimit cell = .error .unfinished := by
        simp only [CompiledCode.runNumber, expected, still]
        rfl
      rw [stopped]
      exact .unfinished still
    · cases value with
      | number x =>
        rw [number x rfl]
        exact .number evaluated
      | string | nothing => cases kind.trans asked
  · have refused : made.runNumber stepLimit cell =
        .error (.error (.resultKind .number made.result)) := by
      simp only [CompiledCode.runNumber, CompiledCode.expectResult, if_neg asked]
      rfl
    rw [refused]
    exact .otherKind asked

theorem runString_ends : CallEnds made ctx.variableName root cell (.runString slot)
    ((made.runString stepLimit cell).map fun (t, left) =>
      (.text (String.ofList t.chars), left)) := by
  by_cases asked : made.result = .string
  · have expected : made.expectResult .string = .ok () := if_pos asked
    rcases origin.execute_cases separates stepLimit cell with
      still | ⟨value, left, evaluated, kind, -, -, string⟩
    · have stopped : made.runString stepLimit cell = .error .unfinished := by
        simp only [CompiledCode.runString, expected, still]
        rfl
      rw [stopped]
      exact .unfinished still
    · cases value with
      | string t =>
        rw [string t rfl]
        exact .string evaluated
      | number | nothing => cases kind.trans asked
  · have refused : made.runString stepLimit cell =
        .error (.error (.resultKind .string made.result)) := by
      simp only [CompiledCode.runString, CompiledCode.expectResult, if_neg asked]
      rfl
    rw [refused]
    exact .otherKind asked

end CompiledCode.MadeFrom

end calls

namespace Session

variable {s : Session} {request : Request} {offers : List (Except ZeroByte Node)}

/-- The literals of a tree have numbers below the total. -/
theorem literalTotal_take_add_le {slot : Nat} {offer : Except ZeroByte Node}
    (listed : offers[slot]? = some offer) :
    literalTotal (offers.take slot) + literalsIn offer ≤ literalTotal offers := by
  obtain ⟨below, rfl⟩ := List.getElem?_eq_some_iff.1 listed
  have split : offers.take slot ++ offers[slot] :: offers.drop (slot + 1) = offers := by
    rw [← List.drop_eq_getElem_cons below, List.take_append_drop]
  have total := congrArg literalTotal split
  rw [literalTotal_append] at total
  simp only [literalTotal] at total
  omega

/-- The result of a call that has ended. -/
def resultOf (s : Session) : Except CallFailure (Reply × Cell) → Result
  | .ok (reply, cell) => ⟨{ s with cell := cell }, .ok reply, []⟩
  | .error e => ⟨s, .error (ofCallFailure e), []⟩

theorem withCode_of_held {slot : Nat} {code : CompiledCode}
    (held : s.slots[slot]? = some (some code))
    (call : CompiledCode → Except CallFailure (Reply × Cell)) :
    s.withCode slot call = s.resultOf (call code) := by
  simp only [withCode, held]
  rcases call code with e | ⟨reply, cell⟩ <;> rfl

/-- A call of code ends as the tree says that was offered for its slot. -/
theorem perform_call (follows : s.Follows offers) (few : literalTotal offers ≤ 0x800000000000000)
    {slot : Nat} (callee : request.callee? = some slot) {code : CompiledCode}
    (held : s.slots[slot]? = some (some code)) :
    ∃ root ended, offers[slot]? = some (.ok root) ∧
      CallEnds code s.variableName root s.cell request ended ∧
      s.perform request = s.resultOf ended := by
  obtain ⟨root, listed, origin⟩ := follows.origin slot code held
  have separates : code.program.Separates := by
    refine Linkage.standard_separates origin.linkage ?_
    rw [origin.literals]
    exact (literalTotal_take_add_le listed).trans few
  cases request with
  | run slot =>
    cases callee
    exact ⟨root, _, listed, origin.run_ends separates s.cell slot, withCode_of_held held _⟩
  | runNumber slot =>
    cases callee
    exact ⟨root, _, listed, origin.runNumber_ends separates s.cell slot, withCode_of_held held _⟩
  | runString slot =>
    cases callee
    exact ⟨root, _, listed, origin.runString_ends separates s.cell slot, withCode_of_held held _⟩
  | _ => cases callee

/-- After any requests to a session that has been started, a call of the code in a slot ends as the
tree says that was offered for the slot: with the value and the cell that the tree evaluates to, or
because another kind of value was asked for, or because the code has not returned in time. -/
theorem call_after_requests (variableName : String) (cell : Cell) (config : Config)
    (requests : List Request)
    (few : literalTotal (requests.filterMap Request.offer?) ≤ 0x800000000000000)
    {slot : Nat} (callee : request.callee? = some slot) {code : CompiledCode}
    (held : ((start variableName cell config).afterAll requests).slots[slot]? = some (some code)) :
    let s := (start variableName cell config).afterAll requests
    ∃ root ended, (requests.filterMap Request.offer?)[slot]? = some (.ok root) ∧
      CallEnds code variableName root s.cell request ended ∧
      s.perform request = s.resultOf ended := by
  have follows := (follows_start variableName cell config).afterAll requests
  obtain ⟨root, ended, listed, ends, performed⟩ := perform_call follows few callee held
  rw [variableName_afterAll] at ends
  exact ⟨root, ended, listed, ends, performed⟩

end Session

end TreeJit
