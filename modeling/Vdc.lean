import Vdc.Main
import Vdc.Probe.Rehearsal
import Vdc.Proofs.Agreement
import Vdc.Proofs.Manager
import Vdc.Proofs.Message.Normal
import Vdc.Proofs.Message.RoundTrip
import Vdc.Proofs.Session.Completion
import Vdc.Proofs.Session.Cycle
import Vdc.Proofs.Session.Gate
import Vdc.Proofs.Session.Newcomers
import Vdc.Proofs.Session.Replies
import Vdc.Proofs.Store.Reopening
import Vdc.Proofs.Session.Delivery
import Vdc.Proofs.Property.Provenance
import Vdc.Proofs.Session.Discipline
import Vdc.Proofs.Session.Answering
import Vdc.Proofs.Json.Length
import Vdc.Proofs.Number.Length
import Vdc.Proofs.Lamp.Length
import Vdc.Proofs.Lamp.Replies
import Vdc.Proofs.Lamp.Answers
import Vdc.Proofs.Announcement
import Vdc.Proofs.Session.Requirements
import Vdc.Proofs.Session.Parting
import Vdc.Proofs.Session.Closing
import Vdc.Store.Draft
import Vdc.Proofs.Store.Failure
import Vdc.Proofs.Frame.Incremental
import Vdc.Proofs.RequestAge
import Vdc.Proofs.Reception
import Vdc.Proofs.Json.Cutting
import Vdc.Proofs.Json.Renaming
import Vdc.Proofs.Message.Peek
import Vdc.Proofs.Session.Rows
import Vdc.Proofs.Message.Entries
import Vdc.Proofs.Dsuid
import Vdc.Proofs.Probe.Assignment
import Vdc.Proofs.Probe.Acknowledging
import Vdc.Proofs.Session.Requests
import Vdc.Proofs.Lamp.Announcing
