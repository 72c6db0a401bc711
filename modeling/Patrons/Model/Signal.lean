import Patrons.Model.Process

/-! # SIGSEGV handling

`HandleSignal` registers the handler, `CustomSignalHandler` either jumps to the last
`sigsetjmp` or puts the saved disposition back, and a guarded section is a body
between `sigsetjmp` and the reset of the flag. -/

namespace Patrons

/-- What `sigemptyset` and `sigaction` answer in one call of `HandleSignal`. -/
structure SigCalls where
  sigemptysetOk : Bool := true
  sigactionOk : Bool := true
  errno : ℤ := 0

def SigCalls.regError (k : SigCalls) : ℤ :=
  if k.errno = 0 then Code.signalHandlerRegError.value else k.errno

def handleSignal (k : SigCalls) (s : Signals) : ℤ × Signals :=
  if !k.sigemptysetOk then (k.regError, s)
  else if !k.sigactionOk then (k.regError, s)
  else (0, { s with sigsegv := .customSignalHandler, sigActOld := s.sigsegv })

/-- How the delivery of one SIGSEGV ends. -/
inductive Delivery where
  /-- `siglongjmp(time_machine, 1)`. -/
  | jump (s : Signals)
  /-- The handler returns, and the faulting instruction runs again. -/
  | resumed (s : Signals)
  /-- The signal goes to a disposition that is not the library's. -/
  | foreign (handler : ℕ)

def customSignalHandler (s : Signals) : Delivery :=
  if s.iWantHandleSignalFlag then .jump { s with iWantHandleSignalFlag := false }
  else .resumed { s with sigsegv := s.sigActOld }

def deliver (s : Signals) : Delivery :=
  match s.sigsegv with
  | .customSignalHandler => customSignalHandler s
  | .foreign h => .foreign h

/-- The last of `k + 1` deliveries of one SIGSEGV: whenever the handler returns, the faulting
instruction runs again and raises it once more. -/
def redeliver : ℕ → Signals → Delivery
  | 0, s => deliver s
  | k + 1, s =>
    match deliver s with
    | .resumed t => redeliver k t
    | d => d

/-- `if (0 == sigsetjmp(time_machine, 1)) body else onJump`. Only a jump comes back;
any other delivery leaves the call for good. -/
def guarded {α : Type} (body onJump : Native α) : Native α :=
  ⟨fun φ s =>
    match body.run φ s with
    | .fault t =>
      match deliver t.sig with
      | .jump sig => onJump.run φ (t.setSig sig)
      | .resumed sig => .fault (t.setSig sig)
      | .foreign _ => .fault t
    | o => o⟩

@[simp] theorem wp_guarded {α : Type} {φ : Site → Bool} {body onJump : Native α}
    {Q : α → Process → Prop} {F H : Process → Prop} {s : Process} :
    Prog.wp φ (guarded body onJump) Q F H s ↔
      Prog.wp φ body Q (fun t =>
        match deliver t.sig with
        | .jump sig => Prog.wp φ onJump Q F H (t.setSig sig)
        | .resumed sig => F (t.setSig sig)
        | .foreign _ => F t) H s := by
  unfold Prog.wp guarded
  dsimp only
  cases body.run φ s with
  | done a t => rfl
  | hang t => rfl
  | fault t =>
      simp only [Outcome.ends_fault]
      cases deliver t.sig <;> rfl

def Signals.setFlag (s : Signals) (b : Bool) : Signals := { s with iWantHandleSignalFlag := b }

@[simp] theorem Signals.flag_setFlag (s : Signals) (b : Bool) :
    (s.setFlag b).iWantHandleSignalFlag = b := rfl

@[simp] theorem Signals.sigsegv_setFlag (s : Signals) (b : Bool) :
    (s.setFlag b).sigsegv = s.sigsegv := rfl

@[simp] theorem Signals.setFlag_setFlag (s : Signals) (b c : Bool) :
    (s.setFlag b).setFlag c = s.setFlag c := rfl

theorem Signals.setFlag_self {s : Signals} {b : Bool} (h : s.iWantHandleSignalFlag = b) :
    s.setFlag b = s := by
  cases s
  subst h
  rfl

def setHandleSignalFlag (b : Bool) : Native Unit :=
  Prog.modify fun s => s.setSig (s.sig.setFlag b)

@[simp] theorem wp_setHandleSignalFlag {b : Bool} {φ : Site → Bool}
    {Q : Unit → Process → Prop} {F H : Process → Prop} {s : Process} :
    Prog.wp φ (setHandleSignalFlag b) Q F H s ↔ Q () (s.setSig (s.sig.setFlag b)) := Iff.rfl

/-- While the flag is up and the handler is installed, a SIGSEGV comes back to `sigsetjmp`. -/
theorem deliver_setFlag {s : Signals} (h : s.sigsegv = .customSignalHandler) :
    deliver (s.setFlag true) = .jump (s.setFlag false) := by
  simp [deliver, customSignalHandler, Signals.setFlag, h]

end Patrons
