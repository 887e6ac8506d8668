import C64WireGuard.Initiator
import C64WireGuard.Session

/-!
# What `session_initiate` does

`sessionPrepare_spec` lists every cell `session_initiate` writes before it builds the packet, and
`sessionInitiate_hs` says that the handshake cells afterwards are those `hs_create_initiation` left,
whether or not the packet went out.
-/

namespace C64WireGuard

open Bytes

variable {σ : Type}

/-! ## Cells written before the packet is built -/

theorem entropyLoop_cells (env : Env σ) (n : Nat) (filled : List UInt8) (carry : Bool)
    (m : Machine σ) : ∃ e w,
      (entropyLoop env n filled carry m).2.2 = { m with entropyState := e, world := w } := by
  induction n generalizing filled carry m with
  | zero => exact ⟨_, _, rfl⟩
  | succ n ih =>
      rw [entropyLoop]
      obtain ⟨e, w, h⟩ := ih ((entropyByte env carry m).2.entropyState :: filled)
        (entropyByte env carry m).1 (entropyByte env carry m).2
      exact ⟨e, w, h⟩

/-- `entropy_fill` writes its buffer and `entropy_state`. -/
theorem entropyFill_cells (env : Env σ) (n : Nat) (carry : Bool) (m : Machine σ) : ∃ e w,
    (entropyFill env n carry m).2.2 = { m with entropyState := e, world := w } :=
  entropyLoop_cells env n [] carry m

/-- The socket is closed exactly when the endpoint moves. -/
def closedFor (m : Machine σ) : List Event :=
  if m.cfg.cfgPeerEndpoint = m.wgPeer then [] else [.netUdpClose]

/-- The handshake cells with the configuration and fresh inputs in place. -/
def HsMem.prepared (hs : HsMem) (cfg : CfgMem) (priv : Bytes 32) (idx : Bytes 4) (ts : Bytes 12) :
    HsMem :=
  { hs with
    hsStaticPriv := cfg.cfgStaticPriv
    hsStaticPub := cfg.cfgStaticPub
    hsRespPub := cfg.cfgPeerPub
    hsPresharedKey := cfg.cfgPresharedKey
    hsEphemPriv := priv
    hsSenderIdx := idx
    hsTimestamp := ts }

theorem configLoad_cells (env : Env σ) (m : Machine σ) : ∃ ts tai w t,
    (configLoad env m).2 =
      { m with
        hs := { m.hs with
          hsStaticPriv := m.cfg.cfgStaticPriv
          hsStaticPub := m.cfg.cfgStaticPub
          hsRespPub := m.cfg.cfgPeerPub
          hsPresharedKey := m.cfg.cfgPresharedKey
          hsTimestamp := ts }
        wgPeer := m.cfg.cfgPeerEndpoint
        tai := tai
        world := w
        ticks := t
        trace := closedFor m ++ m.trace } := by
  have hload : ∃ w, loadEndpoint env (loadKeys m) =
      { loadKeys m with
        wgPeer := m.cfg.cfgPeerEndpoint
        world := w
        trace := closedFor m ++ m.trace } := by
    by_cases h : m.cfg.cfgPeerEndpoint = m.wgPeer
    · refine ⟨m.world, ?_⟩
      rw [closedFor, if_pos h]
      exact if_pos h
    · refine ⟨env.net.netUdpClose m.world, ?_⟩
      rw [closedFor, if_neg h]
      exact if_neg h
  obtain ⟨w, hw⟩ := hload
  rw [configLoad, hw]
  exact ⟨_, _, _, _, rfl⟩

/-- All `session_initiate` writes before it builds the packet. -/
theorem sessionPrepare_spec (env : Env σ) (m : Machine σ) : ∃ priv idx ts tai e w t,
    sessionPrepare env m =
      { m with
        hs := m.hs.prepared m.cfg priv idx ts
        wgPeer := m.cfg.cfgPeerEndpoint
        tai := tai
        entropyState := e
        world := w
        ticks := t
        trace := closedFor m ++ m.trace } := by
  obtain ⟨ts, tai, w, t, hload⟩ := configLoad_cells env m
  rw [sessionPrepare]
  generalize configLoad env m = c at *
  obtain ⟨carry, m₁⟩ := c
  dsimp only at hload ⊢
  obtain ⟨e₁, w₁, hpriv⟩ := entropyFill_cells env 32 carry m₁
  generalize entropyFill env 32 carry m₁ = priv at *
  obtain ⟨e₂, w₂, hidx⟩ := entropyFill_cells env 4 priv.2.1
    { priv.2.2 with hs := { priv.2.2.hs with hsEphemPriv := priv.1 } }
  generalize entropyFill env 4 priv.2.1
    { priv.2.2 with hs := { priv.2.2.hs with hsEphemPriv := priv.1 } } = idx at *
  rw [hidx, hpriv, hload]
  exact ⟨_, _, _, _, _, _, _, rfl⟩

/-! ## The packet -/

/-- The handshake cells after `session_initiate`. -/
theorem sessionInitiate_hs (env : Env σ) (m : Machine σ) :
    (sessionInitiate env m).hs = hsCreateInitiation env.prims (sessionPrepare env m).hs := by
  rw [sessionInitiate]
  split <;> rfl

end C64WireGuard
