import ServerHub.VgBackup.Orderly.Agent

namespace VgBackup

open Relational Interleave

variable {env : Env} {pid : Nat} {x : Trace}

theorem orderly_saveMachine (m : MachineFacts) : Orderly env pid (saveMachine m) x :=
  orderly_query fun _ _ => orderly_last (fun _ _ => trivial) fun _ _ => trivial

theorem orderly_vgRegister (draw : Nat) (req : RegisterRequest) :
    Orderly env pid (vgRegister env draw req) x := by
  unfold vgRegister
  split
  · exact orderly_fail _ _
  · refine orderly_query fun _ _ => ?_
    split
    · exact orderly_fail _ _
    · split
      · exact orderly_fail _ _
      · refine orderly_query fun _ _ => ?_
        split
        · exact orderly_fail _ _
        · split
          · exact orderly_fail _ _
          · refine orderly_agent fun _ _ _ => ?_
            exact orderly_bind (orderly_saveMachine _) fun _ _ _ => orderly_ret _

theorem orderly_enrollTransaction (token agentID : UUID) (req : EnrollRequest) (hash : String)
    (now : Time) : Orderly env pid (enrollTransaction token agentID req hash now) x := by
  refine orderly_query fun _ _ => orderly_agent fun _ claimed _ => ?_
  cases claimed with
  | false => exact orderly_ret _
  | true =>
    refine orderly_query fun _ _ => ?_
    split
    · exact orderly_agent fun _ _ _ => orderly_ret _
    · split
      · exact orderly_agent fun _ _ _ => orderly_ret _
      · refine orderly_query fun _ _ => ?_
        exact orderly_agent fun _ _ _ => orderly_ret _

theorem orderly_vgEnroll (draw : Nat) (req : EnrollRequest) :
    Orderly env pid (vgEnroll env draw req) x := by
  unfold vgEnroll
  split
  · exact orderly_fail _ _
  · refine orderly_query fun _ _ => ?_
    split
    · exact orderly_fail _ _
    · refine orderly_query fun _ _ => ?_
      split
      · exact orderly_fail _ _
      · split
        · exact orderly_fail _ _
        · exact orderly_fail _ _
        · refine orderly_query fun _ _ => ?_
          refine orderly_bind (orderly_enrollTransaction _ _ _ _ _) fun done _ _ => ?_
          cases done with
          | true => exact orderly_ret _
          | false => exact orderly_fail _ _

theorem orderly_vgHeartbeat (agent : UUID) (agentVersion : String) :
    Orderly env pid (vgHeartbeat agent agentVersion) x :=
  orderly_query fun _ _ => orderly_agent fun _ _ _ => orderly_ret _

theorem orderly_agentCall (agent : UUID) (call : AgentCall) :
    Orderly env pid (call.run env agent) x := by
  cases call with
  | heartbeat agentVersion => exact orderly_vgHeartbeat agent agentVersion
  | claimRun param => exact orderly_vgClaimRun agent param
  | updateRunStatus param req => exact orderly_vgUpdateRunStatus agent param req
  | registerArtifact param req => exact orderly_vgRegisterArtifact agent param req
  | registerChunk param req => exact orderly_vgRegisterChunk agent param req
  | claimRestore param => exact orderly_vgClaimRestore agent param
  | updateRestoreStatus param req => exact orderly_vgUpdateRestoreStatus agent param req

theorem orderly_agentRequest (authorization agentHeader : String) (call : AgentCall) :
    Orderly env pid (agentRequest env authorization agentHeader call) x := by
  unfold agentRequest vgAgentAuth
  dsimp only
  split
  · exact orderly_fail _ _
  · split
    · exact orderly_fail _ _
    · refine orderly_query fun _ _ => ?_
      split
      · exact orderly_fail _ _
      · split
        · exact orderly_fail _ _
        · split
          · exact orderly_fail _ _
          · exact orderly_agentCall _ call

theorem orderly_generateEnrollmentToken (actor : Actor) (draw : Nat)
    (req : EnrollmentTokenRequest) :
    Orderly env pid (generateEnrollmentToken env actor draw req) x := by
  unfold generateEnrollmentToken
  split
  · exact orderly_fail _ _
  · refine orderly_query fun _ _ => orderly_agent fun _ out _ => ?_
    cases out with
    | created id => exact orderly_ret _
    | nothing => exact orderly_fail _ _
    | violation => exact orderly_fail _ _

theorem orderly_revokeEnrollmentToken (actor : Actor) (param : String) :
    Orderly env pid (revokeEnrollmentToken env actor param) x := by
  unfold revokeEnrollmentToken
  split
  · exact orderly_fail _ _
  · refine orderly_query fun _ _ => ?_
    split
    · exact orderly_fail _ _
    · split
      · exact orderly_fail _ _
      · refine orderly_query fun _ _ => orderly_agent fun _ done _ => ?_
        cases done with
        | true => exact orderly_ret _
        | false => exact orderly_fail _ _

theorem orderly_revokeAgent (actor : Actor) (param : String) :
    Orderly env pid (revokeAgent env actor param) x := by
  unfold revokeAgent
  split
  · exact orderly_fail _ _
  · refine orderly_query fun _ _ => ?_
    split
    · exact orderly_fail _ _
    · split
      · exact orderly_fail _ _
      · exact orderly_query fun _ _ => orderly_agent fun _ _ _ => orderly_ret _

theorem orderly_generateRegistrationToken (actor : Actor) (draw : Nat) :
    Orderly env pid (generateRegistrationToken env actor draw) x := by
  refine orderly_query fun _ _ => orderly_agent fun _ out _ => ?_
  cases out with
  | created id => exact orderly_ret _
  | nothing => exact orderly_fail _ _
  | violation => exact orderly_fail _ _

theorem orderly_rotateAgentToken (draw : Nat) (param : String) :
    Orderly env pid (rotateAgentToken env draw param) x := by
  unfold rotateAgentToken
  split
  · exact orderly_fail _ _
  · split
    · exact orderly_fail _ _
    · refine orderly_agent fun _ done _ => ?_
      cases done with
      | true => exact orderly_ret _
      | false => exact orderly_fail _ _

end VgBackup
