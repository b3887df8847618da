import ServerHub.VgBackup.Orderly.Rules

namespace VgBackup

open Relational Interleave

variable {env : Env} {pid : Nat} {x : Trace}

theorem orderly_createConnection (actor : Actor) (req : ConnectionRequest) :
    Orderly env pid (createConnection env actor req) x := by
  unfold createConnection
  split
  · exact orderly_fail _ _
  · exact orderly_fail _ _
  · exact orderly_fail _ _
  · refine orderly_query fun _ _ => ?_
    split
    · exact orderly_fail _ _
    · dsimp only
      split
      · exact orderly_fail _ _
      · split
        · exact orderly_fail _ _
        · refine orderly_job (fun _ _ => trivial) fun _ out _ => ?_
          cases out with
          | created id => exact orderly_query fun _ _ => orderly_ret _
          | nothing => exact orderly_fail _ _
          | violation => exact orderly_fail _ _

theorem orderly_updateConnection (actor : Actor) (param : String) (req : ConnectionRequest) :
    Orderly env pid (updateConnection env actor param req) x := by
  unfold updateConnection
  split
  · exact orderly_fail _ _
  · refine orderly_query fun _ _ => ?_
    split
    · exact orderly_fail _ _
    · split
      · exact orderly_fail _ _
      · split
        · exact orderly_fail _ _
        · exact orderly_ret _
        · refine orderly_job (fun _ _ => trivial) fun _ done _ => ?_
          cases done with
          | true => exact orderly_query fun _ _ => orderly_ret _
          | false => exact orderly_fail _ _

theorem orderly_deleteConnection (actor : Actor) (param : String) :
    Orderly env pid (deleteConnection env actor param) x := by
  unfold deleteConnection
  split
  · exact orderly_fail _ _
  · refine orderly_query fun _ _ => ?_
    split
    · exact orderly_fail _ _
    · split
      · exact orderly_fail _ _
      · refine orderly_query fun _ _ => ?_
        split
        · exact orderly_fail _ _
        · exact orderly_job (fun _ _ => trivial) fun _ _ _ => orderly_ret _

theorem orderly_testConnection (actor : Actor) (param : String) (dialFailure : Option String) :
    Orderly env pid (testConnection env actor param dialFailure) x := by
  unfold testConnection
  split
  · exact orderly_fail _ _
  · refine orderly_query fun _ _ => ?_
    split
    · exact orderly_fail _ _
    · split
      · exact orderly_fail _ _
      · refine orderly_query fun _ _ => ?_
        split
        · exact orderly_job (fun _ _ => trivial) fun _ _ _ => orderly_fail _ _
        · exact orderly_job (fun _ _ => trivial) fun _ _ _ => orderly_fail _ _
        · exact orderly_job (fun _ _ => trivial) fun _ _ _ => orderly_ret _

theorem orderly_createPolicy (actor : Actor) (req : PolicyRequest) :
    Orderly env pid (createPolicy env actor req) x := by
  unfold createPolicy
  split
  · exact orderly_fail _ _
  · refine orderly_job (fun _ _ => trivial) fun _ _ _ => ?_
    refine orderly_job (fun _ _ => trivial) fun _ _ _ => ?_
    exact orderly_query fun _ _ => orderly_ret _

theorem orderly_updatePolicy (actor : Actor) (param : String) (req : PolicyRequest) :
    Orderly env pid (updatePolicy env actor param req) x := by
  unfold updatePolicy
  split
  · exact orderly_fail _ _
  · refine orderly_query fun _ _ => ?_
    split
    · exact orderly_fail _ _
    · split
      · exact orderly_fail _ _
      · split
        · exact orderly_fail _ _
        · refine orderly_job (fun _ _ => trivial) fun _ _ _ => ?_
          exact orderly_query fun _ _ => orderly_ret _

theorem orderly_setJobEnabled (actor : Actor) (param : String) (enabled : Bool) :
    Orderly env pid (setJobEnabled env actor param enabled) x := by
  unfold setJobEnabled
  split
  · exact orderly_fail _ _
  · refine orderly_query fun _ _ => ?_
    split
    · exact orderly_fail _ _
    · split
      · exact orderly_fail _ _
      · exact orderly_job (fun _ _ => trivial) fun _ _ _ => orderly_ret _

theorem orderly_verifyRun (actor : Actor) (param : String) :
    Orderly env pid (verifyRun env actor param) x := by
  unfold verifyRun
  split
  · exact orderly_fail _ _
  · refine orderly_query fun _ _ => ?_
    split
    · exact orderly_fail _ _
    · split
      · exact orderly_fail _ _
      · split
        · exact orderly_fail _ _
        · split
          · exact orderly_fail _ _
          · refine orderly_query fun _ _ => ?_
            split
            · exact orderly_fail _ _
            · split
              · exact orderly_fail _ _
              · refine orderly_query fun _ _ => ?_
                split
                · exact orderly_fail _ _
                · refine orderly_query fun _ _ => ?_
                  exact orderly_side fun _ _ _ => orderly_ret _

end VgBackup
