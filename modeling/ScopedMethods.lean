import ScopedMethods.Arena
import ScopedMethods.Calendar
import ScopedMethods.Callback
import ScopedMethods.Chain.Basic
import ScopedMethods.Chain.Candidate
import ScopedMethods.Cleanup
import ScopedMethods.Custody
import ScopedMethods.Decimal.Significant
import ScopedMethods.Failure
import ScopedMethods.Ledger
import ScopedMethods.Log.Component
import ScopedMethods.Log.Event
import ScopedMethods.Log.Journal
import ScopedMethods.Log.Line
import ScopedMethods.Log.Severity
import ScopedMethods.Log.Shelf
import ScopedMethods.Log.Verbosity
import ScopedMethods.Main
import ScopedMethods.Options
import ScopedMethods.Proofs.Acts
import ScopedMethods.Proofs.Ancestors
import ScopedMethods.Proofs.Answers
import ScopedMethods.Proofs.Arena
import ScopedMethods.Proofs.Arrivals
import ScopedMethods.Proofs.Attempts
import ScopedMethods.Proofs.Balance
import ScopedMethods.Proofs.Bench
import ScopedMethods.Proofs.Breaks
import ScopedMethods.Proofs.Calls
import ScopedMethods.Proofs.Conservation
import ScopedMethods.Proofs.Counters
import ScopedMethods.Proofs.Custody
import ScopedMethods.Proofs.Dates
import ScopedMethods.Proofs.Deeds
import ScopedMethods.Proofs.Descent
import ScopedMethods.Proofs.Dispatch
import ScopedMethods.Proofs.Estate
import ScopedMethods.Proofs.Growth
import ScopedMethods.Proofs.Hints
import ScopedMethods.Proofs.Holders
import ScopedMethods.Proofs.Housing
import ScopedMethods.Proofs.Isolation
import ScopedMethods.Proofs.Leaving
import ScopedMethods.Proofs.Library
import ScopedMethods.Proofs.Lineage
import ScopedMethods.Proofs.Logging
import ScopedMethods.Proofs.Moves
import ScopedMethods.Proofs.Muting
import ScopedMethods.Proofs.Numerals
import ScopedMethods.Proofs.Occupancy
import ScopedMethods.Proofs.Offering
import ScopedMethods.Proofs.Outlook
import ScopedMethods.Proofs.Ownership
import ScopedMethods.Proofs.Pinning
import ScopedMethods.Proofs.Plan
import ScopedMethods.Proofs.Queries
import ScopedMethods.Proofs.Ranking
import ScopedMethods.Proofs.Reading
import ScopedMethods.Proofs.Records
import ScopedMethods.Proofs.Recycling
import ScopedMethods.Proofs.Reference
import ScopedMethods.Proofs.Refusals
import ScopedMethods.Proofs.Registrations
import ScopedMethods.Proofs.Remarks
import ScopedMethods.Proofs.Representation
import ScopedMethods.Proofs.Requests
import ScopedMethods.Proofs.Routines
import ScopedMethods.Proofs.Runs
import ScopedMethods.Proofs.Scoping
import ScopedMethods.Proofs.Settings
import ScopedMethods.Proofs.Shifts
import ScopedMethods.Proofs.Sightings
import ScopedMethods.Proofs.Snapshots
import ScopedMethods.Proofs.Stamps
import ScopedMethods.Proofs.Tables
import ScopedMethods.Proofs.Teardown
import ScopedMethods.Proofs.Twins
import ScopedMethods.Proofs.Upkeep
import ScopedMethods.Proofs.Views
import ScopedMethods.Proofs.Walks
import ScopedMethods.Proofs.Work
import ScopedMethods.Proofs.Workers
import ScopedMethods.Proofs.Workshop
import ScopedMethods.Realm
import ScopedMethods.Report
import ScopedMethods.ScopeStack
import ScopedMethods.Session.Answer
import ScopedMethods.Session.Basic
import ScopedMethods.Session.Parts
import ScopedMethods.Session.Run
import ScopedMethods.Session.Scopes
import ScopedMethods.Session.Step
import ScopedMethods.Session.Tenancies
import ScopedMethods.Session.Types
import ScopedMethods.Showcase
import ScopedMethods.Showcase.Program
import ScopedMethods.Slots
import ScopedMethods.Store
import ScopedMethods.Tenancy
import ScopedMethods.Text.Fragment
import ScopedMethods.Text.Word
import ScopedMethods.Types.Catalog
import ScopedMethods.Types.Method
import ScopedMethods.Types.Tree
