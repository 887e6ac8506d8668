import C64WireGuard.Uci.PeerPin
import Mathlib.Data.Finset.Option

/-!
# The firmware's sockets

The firmware keeps a book: a connect that succeeds enters the handle it returns, a close strikes it
out. `held` reads the book off a log. As long as no wait gives up and no close is refused, the book
holds the socket that the adapter has and no other (`reachable_held`), so nothing is leaked however
often the socket changes hands.
-/

namespace C64WireGuard.Uci

open Bytes

variable {δ ω : Type} {S : Setup δ ω} {m m' : Machine (World δ ω)} {dest : Option Endpoint}
  {log es : List Access} {k k' : Socket}

/-! ## The book -/

/-- The handle that a reply hands out. There is no handle 0. -/
def handleOf (x : Answered) : Option UInt8 := (readsOf .uciRespData x.2).head?.filter (· ≠ 0)

/-- The command was answered with the error bit. -/
def reportsError (x : Answered) : Bool :=
  (verdict (.write .uciControl uciCtrlPushCmd :: x.2)).any fun v => v &&& uciStatError ≠ 0

/-- One command more. A close that is refused strikes nothing out. -/
def bookEntry (book : Finset UInt8) (x : Answered) : Finset UInt8 :=
  if IsConnect x.1 then book ∪ (handleOf x).toFinset
  else if IsClose x.1 ∧ reportsError x = false then book.erase (x.1.getD 2 0)
  else book

/-- The sockets handed out and not closed. -/
def held (log : List Access) : Finset UInt8 := (transcript log).exchanges.foldl bookEntry ∅

/-- A connect that hands out a handle is a success: it reports no error, and its status line, if any,
refuses nothing. -/
def Honest (x : Answered) : Prop :=
  IsConnect x.1 → (handleOf x).isSome → reportsError x = false ∧ LineOk (readsOf .uciStatusData x.2)

/-- A close that is not refused. -/
def Closes (x : Answered) : Prop := IsClose x.1 → reportsError x = false

instance : DecidablePred LineOk
  | [] => .isTrue trivial
  | [_] => .isTrue trivial
  | a :: b :: _ => inferInstanceAs (Decidable (lineCode a b = 0))

instance (x : Answered) : Decidable (Honest x) := by unfold Honest; infer_instance
instance (x : Answered) : Decidable (Closes x) := by unfold Closes; infer_instance

/-! ## What later reads change -/

/-- The verdict stands, whatever is read after it. -/
theorem verdict_append {es : List Access} {v : UInt8} (h : verdict es = some v)
    (fs : List Access) (hes : ∃ gs, es = .write .uciControl uciCtrlPushCmd :: gs) :
    verdict (es ++ fs) = some v := by
  obtain ⟨gs, rfl⟩ := hes
  have hafter : ∀ gs, afterPush (.write .uciControl uciCtrlPushCmd :: gs) = gs := fun _ => if_pos rfl
  rw [verdict, hafter] at h
  rw [List.cons_append, verdict, hafter, readsOf_append]
  obtain ⟨hlt, -⟩ := List.getElem?_eq_some_iff.mp h
  have hdrop : ∀ vs ws : List UInt8, vs.dropWhile (fun v => v &&& uciStatCmdBusy ≠ 0) ≠ [] →
      (vs ++ ws).dropWhile (fun v => v &&& uciStatCmdBusy ≠ 0) =
        vs.dropWhile (fun v => v &&& uciStatCmdBusy ≠ 0) ++ ws := by
    intro vs ws hne
    rw [List.dropWhile_append, if_neg]
    simpa using hne
  rw [hdrop _ _ (List.ne_nil_of_length_pos (by omega)), List.getElem?_append_left hlt, h]

/-- An error that is reported stays reported. -/
theorem reportsError_append {x : Answered} (h : reportsError x = true) (fs : List Access) :
    reportsError (x.1, x.2 ++ fs) = true := by
  unfold reportsError at h ⊢
  rw [Option.any_eq_true] at h ⊢
  obtain ⟨v, hv, herr⟩ := h
  exact ⟨v, verdict_append hv fs ⟨_, rfl⟩, herr⟩

/-! ## One exchange -/

/-- Whatever is still read, the book says `book`, if the firmware is honest and every close was
taken. -/
def Settles (t : Transcript) (book : Finset UInt8) : Prop :=
  ∀ fs, Still fs → (∀ x ∈ (t.answer fs).exchanges, Honest x ∧ Closes x) →
    (t.answer fs).exchanges.foldl bookEntry ∅ = book

/-- **An exchange makes one entry, or none.** -/
theorem Settles.exchange {t : Transcript} {book book' : Finset UInt8} {cmd : List UInt8}
    (h : Settles t book) (ht : t.bytes = []) (hexchange : Exchange cmd es)
    (hsilent : pushed es = [] → book' = book)
    (hentry : ∀ before after fs, Still before → Still fs →
      es = before ++ commandWrites cmd ++ .write .uciControl uciCtrlPushCmd :: after →
      Honest (cmd, after ++ fs) → Closes (cmd, after ++ fs) →
      bookEntry book (cmd, after ++ fs) = book') :
    Settles (es.foldl Transcript.see t) book' := by
  obtain ⟨before, hbefore, ⟨hnone, -, hsee⟩ | ⟨after, -, hes, hsee⟩⟩ :=
    Transcript.see_exchange hexchange ht
  · intro fs hfs hall
    rw [hsee, Transcript.answer_answer] at hall ⊢
    rw [hsilent hnone]
    exact h _ (hbefore.append hfs) hall
  · intro fs hfs hall
    have hlast : (Transcript.answer ⟨[], (t.answer before).exchanges, some (cmd, after)⟩ fs).exchanges =
        (t.answer before).exchanges ++ [(cmd, after ++ fs)] := rfl
    rw [hsee, hlast] at hall ⊢
    have hbook := h before hbefore fun x hx => hall x (List.mem_append_left _ hx)
    obtain ⟨hhonest, hcloses⟩ := hall (cmd, after ++ fs) (by simp)
    rw [List.foldl_append, hbook, List.foldl_cons, List.foldl_nil]
    exact hentry before after fs hbefore hfs hes hhonest hcloses

/-- An exchange that neither connects nor closes. -/
theorem Settles.other {t : Transcript} {book : Finset UInt8} {cmd : List UInt8}
    (h : Settles t book) (ht : t.bytes = []) (hexchange : Exchange cmd es)
    (hconnect : ¬ IsConnect cmd) (hclose : ¬ IsClose cmd) :
    Settles (es.foldl Transcript.see t) book := by
  refine h.exchange ht hexchange (fun _ => rfl) fun before after fs _ _ _ _ _ => ?_
  rw [bookEntry, if_neg hconnect, if_neg fun hc => hclose hc.1]

theorem IsWrite.not_isClose {cmd : List UInt8} (h : IsWrite cmd) : ¬ IsClose cmd := by
  unfold IsClose
  rcases h with h | h
  · rw [h]
    decide
  · rw [h]
    decide

/-! ## One step -/

/-- The book that belongs to a socket. -/
def Socket.book (k : Socket) : Finset UInt8 := if k.isOpen ≠ 0 then {k.id} else ∅

/-- The log ends between two commands, and its book is that of the socket. -/
structure Booked (log : List Access) (k : Socket) : Prop where
  between : Between log
  flag : k.Flag
  book : .expired ∉ log → Settles (transcript log) k.book

/-- **A refused connect hands out nothing.** -/
theorem Refusal.entry {ep : Endpoint} {before after fs : List Access} (hbefore : Still before)
    (hfs : Still fs)
    (h : Refusal (before ++ commandWrites (connectCommand ep) ++
      .write .uciControl uciCtrlPushCmd :: after))
    (hhonest : Honest (connectCommand ep, after ++ fs)) :
    bookEntry ∅ (connectCommand ep, after ++ fs) = ∅ := by
  have hconnect : IsConnect (connectCommand ep) := rfl
  have hnone : handleOf (connectCommand ep, after ++ fs) = none := by
    by_contra hsome
    obtain ⟨hok, hline⟩ := hhonest hconnect (Option.isSome_iff_ne_none.mpr hsome)
    have hstatus : readsOf .uciStatusData (after ++ fs) = readsOf .uciStatusData after := by
      rw [readsOf_append, hfs.status, List.append_nil]
    have hdata : readsOf .uciRespData (after ++ fs) = readsOf .uciRespData after := by
      rw [readsOf_append, hfs.data, List.append_nil]
    rcases h with ⟨v, hv, herr⟩ | hbad | hzero
    · have hreports : reportsError (connectCommand ep, after) = true := by
        rw [verdict, afterPush_command hbefore.quiet] at hv
        have hafter : afterPush (.write .uciControl uciCtrlPushCmd :: after) = after := if_pos rfl
        rw [reportsError, verdict, hafter, hv]
        simpa using herr
      rw [reportsError_append hreports fs] at hok
      cases hok
    · simp only [readsOf_append, hbefore.status, readsOf_commandWrites, readsOf_write,
        List.nil_append] at hbad
      exact hbad (hstatus ▸ hline)
    · simp only [readsOf_append, hbefore.data, readsOf_commandWrites, readsOf_write,
        List.nil_append] at hzero
      refine hsome ?_
      rw [handleOf, hdata, hzero]
      rfl
  rw [bookEntry, if_pos hconnect, hnone]
  rfl

/-- **One step keeps the books.** -/
theorem SocketStep.booked (h : SocketStep dest k es k') (hbooked : Booked log k) :
    Booked (log ++ es) k' := by
  have hflag : k'.Flag := (SocketSteps.one h).flag hbooked.flag
  have hlog : .expired ∉ log ++ es → Settles (transcript log) k.book := fun hexp =>
    hbooked.book fun hmem => hexp (List.mem_append_left _ hmem)
  have hnow : .expired ∉ log ++ es → .expired ∉ es := fun hexp hmem =>
    hexp (List.mem_append_right _ hmem)
  cases h with
  | other exchange connect close write =>
    refine ⟨(wire_exchange hbooked.between exchange).1, hflag, fun hexp => ?_⟩
    rw [transcript_append]
    exact (hlog hexp).other hbooked.between exchange connect close
  | write isOpen allowed exchange target =>
    refine ⟨(wire_exchange hbooked.between exchange).1, hflag, fun hexp => ?_⟩
    rw [transcript_append]
    exact (hlog hexp).other hbooked.between exchange target.isWrite.not_isConnect
      target.isWrite.not_isClose
  | close isOpen exchange pushes =>
    refine ⟨(wire_exchange hbooked.between exchange).1, hflag, fun hexp => ?_⟩
    rw [transcript_append]
    refine (hlog hexp).exchange hbooked.between exchange (fun hnone => ?_)
      fun before after fs _ _ _ _ hcloses => ?_
    · rw [pushes (hnow hexp)] at hnone
      cases hnone
    · have hclose : IsClose (closeCommand k.id) := rfl
      have hconnect : ¬ IsConnect (closeCommand k.id) := by simp [IsConnect, closeCommand]; decide
      rw [bookEntry, if_neg hconnect, if_pos ⟨hclose, hcloses hclose⟩, Socket.book, if_pos isOpen]
      exact Finset.erase_singleton k.id
  | @opened ep _ id closed allowed exchange pushes id_ne reply =>
    refine ⟨(wire_exchange hbooked.between exchange).1, hflag, fun hexp => ?_⟩
    rw [transcript_append]
    refine (hlog hexp).exchange hbooked.between exchange (fun hnone => ?_)
      fun before after fs hbefore hfs hes _ _ => ?_
    · rw [pushes] at hnone
      cases hnone
    · have hconnect : IsConnect (connectCommand ep) := rfl
      simp only [hes, readsOf_append, hbefore.data, readsOf_commandWrites, readsOf_write,
        List.nil_append] at reply
      have hhandle : handleOf (connectCommand ep, after ++ fs) = some id := by
        rw [handleOf, readsOf_append, hfs.data, List.append_nil, reply]
        simp [Option.filter, id_ne]
      rw [bookEntry, if_pos hconnect, hhandle, Socket.book, if_neg (not_not.mpr closed)]
      rfl
  | @refused ep _ id closed allowed exchange why =>
    have hbook : k.book = ∅ := if_neg (not_not.mpr closed)
    refine ⟨(wire_exchange hbooked.between exchange).1, hflag, fun hexp => ?_⟩
    rw [transcript_append]
    refine (hlog hexp).exchange hbooked.between exchange (fun _ => hbook.symm)
      fun before after fs hbefore hfs hes hhonest _ => ?_
    have hrefusal := why.resolve_left (hnow hexp)
    rw [hes] at hrefusal
    rw [hbook]
    exact hrefusal.entry hbefore hfs hhonest
  | forget closed =>
    rw [List.append_nil]
    refine ⟨hbooked.between, hflag, fun hexp => ?_⟩
    have hbook : k.book = ∅ := if_neg (not_not.mpr closed)
    have hsame := hbooked.book hexp
    rw [hbook] at hsame
    exact hsame

theorem SocketSteps.booked (h : SocketSteps dest k es k') (hbooked : Booked log k) :
    Booked (log ++ es) k' := by
  induction h with
  | refl => rwa [List.append_nil]
  | tail _ step ih =>
    rw [← List.append_assoc]
    exact step.booked ih

/-! ## Every reachable state -/

/-- Steps of the adapter keep the books. -/
theorem Reaches.booked {w w' : World δ ω} (h : Reaches dest w w') {s' : State δ}
    (hs' : w'.adapter = some s') :
    ∃ s, w.adapter = some s ∧ (Booked s.log s.mem.socket → Booked s'.log s'.mem.socket) := by
  obtain ⟨s, hs, hsteps⟩ := h s' hs'
  refine ⟨s, hs, fun hbooked => ?_⟩
  obtain ⟨es, hes, hsteps⟩ := hsteps hbooked.flag
  rw [hes]
  exact hsteps.booked hbooked

/-- The books are kept in every reachable state. -/
theorem Reachable.booked (h : Reachable S m) {s : State δ} (hs : m.world.adapter = some s) :
    Booked s.log s.mem.socket := by
  induction h generalizing s with
  | start adapter =>
    rw [adapter] at hs
    cases hs
    exact ⟨rfl, Or.inl rfl, fun _ _ _ _ => rfl⟩
  | @operate m _ o ih =>
    rcases operate_goes m o with hstays | ⟨m₁, hleaves, hstays⟩
    · obtain ⟨s₀, hs₀, hstep⟩ := hstays.adapter.booked hs
      exact hstep (ih hs₀)
    · obtain ⟨s₁, hs₁, hlast⟩ := hstays.adapter.booked hs
      obtain ⟨s₀, hs₀, hfirst⟩ := hleaves.adapter.booked hs₁
      exact hlast (hfirst (ih hs₀))
  | elsewhere _ peer adapter ih => exact ih (adapter ▸ hs)

theorem Booked.held (h : Booked log k) (hexp : .expired ∉ log)
    (hall : ∀ x ∈ (transcript log).exchanges, Honest x ∧ Closes x) : held log = k.book := by
  have hbook := h.book hexp [] still_nil
  rw [Transcript.answer_nil] at hbook
  exact hbook hall

/-- **No firmware socket is leaked.** In every state that the program can reach without a wait giving
up and without a close being refused, with firmware that hands out a handle on success only: the
sockets handed out and not closed are the one the adapter has, or none when it has none, and none
once the program has quit. -/
theorem reachable_held (h : Reachable S m) {s : State δ} (hs : m.world.adapter = some s)
    (hexp : .expired ∉ s.log) (hall : ∀ x ∈ (transcript s.log).exchanges, Honest x ∧ Closes x) :
    held s.log = (if s.mem.uciSocketOpen ≠ 0 then {s.mem.uciSocketId} else ∅) ∧
      (held s.log).card ≤ 1 ∧
      ∀ m₀, Reachable S m₀ → m = operate S m₀ (.command .quit) → held s.log = ∅ := by
  have hheld : held s.log = s.mem.socket.book := (h.booked hs).held hexp hall
  refine ⟨hheld, ?_, fun m₀ _ hquit => ?_⟩
  · rw [hheld, Socket.book]
    split
    · exact (Finset.card_singleton _).le
    · exact Nat.zero_le 1
  · subst hquit
    obtain ⟨s₀, c, -, hret⟩ := call_spec hs
    have hclosed : s.mem.socket.isOpen = 0 := (netUdpClose_steps hret).2
    rw [hheld, Socket.book, if_neg (not_not.mpr hclosed)]

theorem reachable_held_sample :
    held (sampleSent.world.adapter.get sampleSent_returns).log = {7} := by
  have hheld := (reachable_held reachable_sampleSent (Option.some_get sampleSent_returns).symm
    (by decide +kernel) (by decide +kernel)).1
  have hopen : (sampleSent.world.adapter.get sampleSent_returns).mem.uciSocketOpen ≠ 0 := by
    decide +kernel
  have hid : (sampleSent.world.adapter.get sampleSent_returns).mem.uciSocketId = 7 := by
    decide +kernel
  rw [hheld, if_pos hopen, hid]

end C64WireGuard.Uci
